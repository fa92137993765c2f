/-
The tokens of a source text.

A scan ends with the end token, and no other token is one; a number token
always carries a plain numeral. These two facts are what the parser relies
on: tokens put together by hand need have neither, and then parsing can run
out of tokens or meet a number that is none.
-/
import Lox.Scanner
import Lox.Proofs.Numeral

namespace Lox

/-- What the scanner promises of a token before the end. -/
structure Token.Scanned (t : Token) : Prop where
  not_eof : t.kind ≠ .eof
  numeral : t.kind = .number → IsNumeral t.lexeme

-- ========================================================= single tokens

/-- A word is a name or a reserved word. -/
theorem Kind.ofWord_cases (s : String) :
    Kind.ofWord s = .identifier ∨ (Kind.ofWord s).word? = some s := by
  unfold Kind.ofWord
  cases hfind : Kind.all.find? (·.word? == some s) with
  | none => exact .inl rfl
  | some k =>
      have hk := List.find?_some hfind
      exact .inr (by simpa using hk)

/-- No word is of a kind that is neither a name nor reserved. -/
theorem Kind.ofWord_ne {s : String} {k : Kind} (hname : k ≠ .identifier) (hword : k.word? = none) :
    Kind.ofWord s ≠ k := by
  rintro rfl
  rcases Kind.ofWord_cases s with h | h
  · exact hname h
  · rw [hword] at h
    cases h

namespace Scanner

/-- A mark is neither the end nor a number. -/
theorem symbol?_kind {cs : List Char} {kind : Kind} {n : Nat} (h : symbol? cs = some (kind, n)) :
    kind ≠ .eof ∧ kind ≠ .number := by
  unfold symbol? at h
  split at h <;> cases h <;> decide

/-- What a number takes: a run of digits, or two of them around a point. -/
theorem take_numberLength (cs : List Char) :
    ∃ fraction : List Char, fraction.all Double.isDigit
      ∧ (cs.take (numberLength cs) = cs.takeWhile isDigit
        ∨ (fraction ≠ []
          ∧ cs.take (numberLength cs) = cs.takeWhile isDigit ++ '.' :: fraction)) := by
  have hsplit : cs.takeWhile isDigit ++ cs.dropWhile isDigit = cs :=
    List.takeWhile_append_dropWhile
  have hdrop : cs.drop (cs.takeWhile isDigit).length = cs.dropWhile isDigit := by
    have h : (cs.takeWhile isDigit ++ cs.dropWhile isDigit).drop (cs.takeWhile isDigit).length
        = cs.dropWhile isDigit := List.drop_left
    rwa [hsplit] at h
  have htake (l : List Char) : l.take (l.takeWhile isDigit).length = l.takeWhile isDigit :=
    (List.prefix_iff_eq_take.1 (List.takeWhile_prefix _)).symm
  simp only [numberLength, hdrop]
  split
  · next rest hrest =>
      have hfraction : (rest.takeWhile isDigit).all Double.isDigit := List.all_takeWhile
      split
      · exact ⟨_, hfraction, .inl (htake cs)⟩
      · next hlen =>
          refine ⟨_, hfraction, .inr ⟨fun h => hlen (by rw [h]; rfl), ?_⟩⟩
          rw [Nat.add_assoc, List.take_add, htake, hdrop, hrest, Nat.add_comm 1,
            List.take_succ_cons, htake]
  · exact ⟨[], rfl, .inl (htake cs)⟩

/-- The characters taken for a number are a plain numeral. -/
theorem isNumeral_take_numberLength {c : Char} {rest : List Char} (h : isDigit c = true) :
    IsNumeral (String.ofList ((c :: rest).take (numberLength (c :: rest)))) := by
  obtain ⟨fraction, hfraction, htake⟩ := take_numberLength (c :: rest)
  refine ⟨(c :: rest).takeWhile isDigit, fraction, ?_, List.all_takeWhile, hfraction, ?_⟩
  · rw [List.takeWhile_cons, if_pos h]
    exact List.cons_ne_nil _ _
  · rw [String.toList_ofList]
    exact htake

/-- Every token that is read has what the scanner promises. -/
theorem scanned_of_scanToken {s : Scanner} {t : Token} (h : (s.scanToken).1 = .token t) :
    t.Scanned := by
  unfold scanToken at h
  split at h
  · cases h
  · next c rest hs =>
      split at h
      · split at h
        · cases h
          exact ⟨(by cases ·), (by cases ·)⟩
        · cases h
      · split at h
        · next hd =>
            cases h
            refine ⟨(by cases ·), fun _ => ?_⟩
            rw [hs]
            exact isNumeral_take_numberLength hd
        · split at h
          · cases h
            refine ⟨Kind.ofWord_ne (by decide) rfl, fun hk => ?_⟩
            exact absurd hk (Kind.ofWord_ne (by decide) rfl)
          · split at h
            · next hk =>
                cases h
                have hkind := symbol?_kind hk
                exact ⟨hkind.1, fun hk => absurd hk hkind.2⟩
            · cases h

-- ========================================================== whole sources

/-- A scan is some events and the end token. -/
theorem events_eq (s : Scanner) :
    ∃ body last, s.events = body ++ [.token last] ∧ last.kind = .eof
      ∧ ∀ t ∈ tokensOf body, t.Scanned := by
  fun_induction events s with
  | case1 s t hrest => exact ⟨[], _, rfl, rfl, fun t ht => by cases ht⟩
  | case2 s t hrest ih =>
      obtain ⟨body, last, heq, hlast, hbody⟩ := ih
      refine ⟨(t.scanToken).1 :: body, last, by rw [heq]; rfl, hlast, ?_⟩
      cases hevent : (t.scanToken).1 with
      | error e => exact hbody
      | token tok =>
          rw [tokensOf_token, List.forall_mem_cons]
          exact ⟨scanned_of_scanToken hevent, hbody⟩

end Scanner

/-- The tokens of a source: scanned tokens and then the end token. -/
theorem tokenize_eq (source : String) :
    ∃ body last, tokenize source = body ++ [last] ∧ last.kind = .eof ∧ ∀ t ∈ body, t.Scanned := by
  obtain ⟨events, last, heq, hlast, hbody⟩ := (Scanner.ofSource source).events_eq
  refine ⟨tokensOf events, last, ?_, hlast, hbody⟩
  unfold tokenize scan
  rw [heq, tokensOf_append]
  rfl

end Lox
