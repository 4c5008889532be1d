import Mathlib.Data.List.TakeWhile
import Mathlib.Data.String.Basic
import PullGraph.Proofs.Grammar
import PullGraph.Proofs.Prelude

/-! # Reading tokens

Blanks, texts and numerals are read as the grammar writes them: what is written is read to its
end and no further, and what is read was written. A numeral shows only by what follows that
it has ended (`Stops`).
-/
namespace PullGraph.Json

variable {cs rest gap ds es : List Char} {c : Char} {mode : Mode}

/-! ## Blanks -/

theorem blank_nil : Blank [] := fun _ h => (List.not_mem_nil h).elim

theorem skipBlanks_append (h : Blank gap) : skipBlanks (gap ++ cs) = skipBlanks cs :=
  List.dropWhile_append_of_pos h

theorem skipBlanks_cons (h : isBlank c = false) : skipBlanks (c :: cs) = c :: cs := by
  rw [skipBlanks, List.dropWhile_cons_of_neg (by simp [h])]

theorem exists_blank (cs : List Char) : ∃ gap, Blank gap ∧ cs = gap ++ skipBlanks cs :=
  ⟨cs.takeWhile isBlank, fun _ hc => List.all_eq_true.mp List.all_takeWhile _ hc,
    List.takeWhile_append_dropWhile.symm⟩

theorem skipBlanks_skipBlanks (cs : List Char) : skipBlanks (skipBlanks cs) = skipBlanks cs := by
  obtain ⟨gap, hgap, hcs⟩ := exists_blank cs
  conv_rhs => rw [hcs, skipBlanks_append hgap]

theorem expectEnd_eq_ok_iff : expectEnd cs = .ok () ↔ Blank cs := by
  unfold expectEnd
  split
  next h =>
    simp only [true_iff]
    exact List.dropWhile_eq_nil_iff.mp h
  next h =>
    simp only [reduceCtorEq, false_iff]
    exact fun hb => h (List.dropWhile_eq_nil_iff.mpr hb)

theorem expectEnd_bind {α : Type} (h : Blank cs) (x : Except Problem α) :
    (expectEnd cs >>= fun _ => x) = x := by
  rw [expectEnd_eq_ok_iff.mpr h]
  rfl

theorem expectColon_append (h : Blank gap) : expectColon (gap ++ ':' :: cs) = .ok cs := by
  unfold expectColon
  rw [skipBlanks_append h, skipBlanks_cons (by decide)]
  rfl

theorem exists_of_expectColon (h : expectColon cs = .ok rest) :
    ∃ gap, Blank gap ∧ cs = gap ++ ':' :: rest := by
  obtain ⟨gap, hgap, hcs⟩ := exists_blank cs
  unfold expectColon at h
  split at h
  · cases h
  next hc =>
    cases h
    exact ⟨gap, hgap, hc ▸ hcs⟩
  · cases h

/-! ## Words -/

theorem eq_of_expectWord {word : List Char} (h : expectWord word cs = .ok rest) :
    cs = word ++ rest := by
  induction word generalizing cs with
  | nil =>
    cases h
    rfl
  | cons w ws ih =>
    cases cs with
    | nil => cases h
    | cons c cs =>
      rw [expectWord] at h
      split at h
      next hw => rw [hw, ih h, List.cons_append]
      · cases h

/-! ## Texts -/

/-- Whether surrogates are read in pairs. -/
def Mode.paired : Mode → Bool
  | .strict _ => true
  | .lenient => false

theorem Mode.paired_enter {inner : Mode} (h : mode.enter = some inner) :
    inner.paired = mode.paired := by
  cases mode with
  | strict d =>
    cases d with
    | zero => cases h
    | succ d =>
      cases h
      rfl
  | lenient =>
    cases h
    rfl

theorem hexUnit_append {n : Nat} (h : UnitText ds n) : hexUnit (ds ++ rest) = .ok (n, rest) := by
  obtain @⟨a, b, c, d, x, y, z, w, ha, hb, hc, hd⟩ := h
  have hsize : ¬(String.ofList [a, b, c, d]).utf8ByteSize < 4 := by
    have := a.utf8Size_pos
    have := b.utf8Size_pos
    have := c.utf8Size_pos
    have := d.utf8Size_pos
    simp only [String.utf8ByteSize_ofList, String.utf8Len_cons, String.utf8Len_nil]
    omega
  unfold hexUnit
  rw [if_neg (by simpa using hsize)]
  simp [ha, hb, hc, hd]

theorem exists_of_hexUnit {n : Nat} (h : hexUnit cs = .ok (n, rest)) :
    ∃ ds, UnitText ds n ∧ cs = ds ++ rest := by
  unfold hexUnit at h
  split at h
  · cases h
  · split at h
    next a b c d _ _ =>
      split at h
      next ha hb hc hd =>
        cases h
        exact ⟨[a, b, c, d], ⟨ha, hb, hc, hd⟩, rfl⟩
      · cases h
    · cases h

theorem pairedUnit_append {n n' : Nat} (h : UnitText ds n') (ht : isTrailing n' = true) :
    pairedUnit n ('\\' :: 'u' :: (ds ++ rest)) = .ok (pairedChar n n', rest) := by
  rw [pairedUnit, hexUnit_append h]
  simp [bind, Except.bind, ht, pairedChar, pure, Except.pure]

theorem exists_of_pairedUnit {n : Nat} (h : pairedUnit n cs = .ok (c, rest)) :
    ∃ ds n', UnitText ds n' ∧ isTrailing n' = true ∧ c = pairedChar n n' ∧
      cs = '\\' :: 'u' :: (ds ++ rest) := by
  unfold pairedUnit at h
  split at h
  · cases h
  · cases h
  · obtain ⟨⟨n', rest'⟩, hunit, hchar⟩ := bind_eq_ok.mp h
    obtain ⟨ds, hds, rfl⟩ := exists_of_hexUnit hunit
    dsimp only at hchar
    split at hchar
    next ht =>
      obtain ⟨hc, rfl⟩ := Prod.mk.inj (Except.ok.inj hchar)
      exact ⟨ds, n', hds, ht, hc.symm, rfl⟩
    · cases hchar
  · cases h

theorem escape_append (h : EscapeText mode.paired es c) :
    escape mode (es ++ rest) = .ok (c, rest) := by
  cases h with
  | short h =>
    simp only [shortEscapes, List.mem_cons, Prod.mk.injEq, List.not_mem_nil, or_false] at h
    rcases h with ⟨rfl, rfl⟩ | ⟨rfl, rfl⟩ | ⟨rfl, rfl⟩ | ⟨rfl, rfl⟩ | ⟨rfl, rfl⟩ | ⟨rfl, rfl⟩ |
      ⟨rfl, rfl⟩ | ⟨rfl, rfl⟩ <;> rfl
  | unit h hl ht =>
    rw [List.cons_append, escape, hexUnit_append h]
    simp [bind, Except.bind, hl, ht, pure, Except.pure]
  | pair hp h hl h' ht =>
    cases mode with
    | lenient => cases hp
    | strict d =>
      rw [List.append_assoc, List.cons_append, escape, hexUnit_append h]
      simp [bind, Except.bind, hl, pairedUnit_append h' ht]
  | lone hp h hs =>
    cases mode with
    | strict d => cases hp
    | lenient =>
      rw [List.cons_append, escape, hexUnit_append h]
      simp only [bind, Except.bind, hs, if_true]
      rfl

theorem exists_of_escape (h : escape mode cs = .ok (c, rest)) :
    ∃ es, EscapeText mode.paired es c ∧ cs = es ++ rest := by
  unfold escape at h
  split at h
  case h_1 => cases h
  case h_10 =>
    obtain ⟨⟨n, rest'⟩, hunit, hchar⟩ := bind_eq_ok.mp h
    obtain ⟨ds, hds, rfl⟩ := exists_of_hexUnit hunit
    dsimp only at hchar
    split at hchar
    next hs =>
      split at hchar
      · cases hchar
        exact ⟨'u' :: ds, .lone rfl hds hs, rfl⟩
      · split at hchar
        next hl =>
          obtain ⟨ds', n', hds', ht, hc, rfl⟩ := exists_of_pairedUnit hchar
          rw [hc]
          exact ⟨_, .pair rfl hds hl hds' ht, by simp⟩
        · cases hchar
    next hs =>
      cases hchar
      simp only [Bool.or_eq_true, not_or, Bool.not_eq_true] at hs
      exact ⟨'u' :: ds, .unit hds hs.1 hs.2, rfl⟩
  case h_11 => cases h
  all_goals
    cases h
    exact ⟨[_], .short (by simp [shortEscapes]), rfl⟩

theorem scanText_append {s : List Char} (h : BodyText mode.paired cs s) {fuel : Nat}
    (hfuel : cs.length < fuel) : scanText mode fuel (cs ++ '"' :: rest) = .ok (s, rest) := by
  induction h generalizing fuel with
  | nil =>
    obtain ⟨fuel, rfl⟩ := Nat.exists_eq_add_one_of_ne_zero (Nat.ne_of_gt hfuel)
    rfl
  | @plain c cs s hctrl hquote hslash _ ih =>
    obtain ⟨fuel, rfl⟩ := Nat.exists_eq_add_one_of_ne_zero (Nat.ne_of_gt (Nat.zero_lt_of_lt hfuel))
    rw [List.cons_append, scanText]
    · rw [if_neg (Nat.not_lt.mpr hctrl), ih (Nat.lt_of_succ_lt_succ hfuel)]
      rfl
    · exact fun h => hquote h
    · exact fun h => hslash h
  | @escape c es cs s he _ ih =>
    obtain ⟨fuel, rfl⟩ := Nat.exists_eq_add_one_of_ne_zero (Nat.ne_of_gt (Nat.zero_lt_of_lt hfuel))
    have hlength : cs.length < fuel := by
      simp only [List.cons_append, List.length_cons, List.length_append] at hfuel
      omega
    have hshape : '\\' :: es ++ cs ++ '"' :: rest = '\\' :: (es ++ (cs ++ '"' :: rest)) := by simp
    rw [hshape, scanText, escape_append he]
    simp only [bind, Except.bind]
    rw [ih hlength]
    rfl

theorem exists_of_scanText {s : List Char} {fuel : Nat}
    (h : scanText mode fuel cs = .ok (s, rest)) :
    ∃ body, BodyText mode.paired body s ∧ cs = body ++ '"' :: rest := by
  induction fuel generalizing cs s with
  | zero => cases h
  | succ fuel ih =>
    unfold scanText at h
    split at h
    · cases h
    · cases h
      exact ⟨[], .nil, rfl⟩
    · obtain ⟨⟨c, rest₁⟩, hescape, hthen⟩ := bind_eq_ok.mp h
      obtain ⟨⟨s', rest₂⟩, hscan, hend⟩ := bind_eq_ok.mp hthen
      obtain ⟨es, hes, rfl⟩ := exists_of_escape hescape
      cases hend
      obtain ⟨body, hbody, rfl⟩ := ih hscan
      exact ⟨_, .escape hes hbody, by simp⟩
    next c cs hquote hslash =>
      split at h
      · cases h
      next hctrl =>
        obtain ⟨⟨s', rest'⟩, hscan, h⟩ := bind_eq_ok.mp h
        cases h
        obtain ⟨body, hbody, rfl⟩ := ih hscan
        exact ⟨c :: body, .plain (Nat.not_lt.mp hctrl) hquote hslash hbody, rfl⟩

/-- A text is read up to its closing quote. -/
theorem readText_eq_ok_iff {s : String} :
    readText mode cs = .ok (s, rest) ↔
      ∃ body, BodyText mode.paired body s.toList ∧ cs = body ++ '"' :: rest := by
  constructor
  · intro h
    obtain ⟨⟨s', rest'⟩, hscan, h⟩ := bind_eq_ok.mp h
    cases h
    rw [String.toList_ofList]
    exact exists_of_scanText hscan
  · rintro ⟨body, hbody, rfl⟩
    have hfuel : body.length < (body ++ '"' :: rest).length + 1 := by
      simp only [List.length_append]
      omega
    rw [readText, scanText_append hbody hfuel]
    simp [bind, Except.bind, pure, Except.pure]

/-- Where only a key can stand, the text of one is read. -/
theorem readKey_append {key : String} {ks : List Char} (hg : Blank gap)
    (hk : QuotedText mode.paired ks key) :
    readKey mode (gap ++ (ks ++ rest)) = .ok (key, rest) := by
  obtain @⟨body, s, hbody⟩ := hk
  rw [readKey, skipBlanks_append hg]
  simp only [List.cons_append, List.append_assoc, List.nil_append]
  rw [skipBlanks_cons (by decide)]
  exact readText_eq_ok_iff.mpr ⟨body, hbody, rfl⟩

theorem exists_of_readKey {key : String} (h : readKey mode cs = .ok (key, rest)) :
    ∃ gap ks, Blank gap ∧ QuotedText mode.paired ks key ∧ cs = gap ++ (ks ++ rest) := by
  obtain ⟨gap, hgap, hcs⟩ := exists_blank cs
  unfold readKey at h
  split at h
  · cases h
  next hc =>
    obtain ⟨body, hbody, rfl⟩ := readText_eq_ok_iff.mp h
    refine ⟨gap, _, hgap, ⟨hbody⟩, ?_⟩
    rw [hcs, hc]
    simp
  · cases h

/-! ## Numerals -/

/-- A numeral does not go on: what follows could not belong to one. -/
def Stops (cs : List Char) : Prop :=
  ∀ c ∈ cs.head?, isDigit c = false ∧ c ≠ '.' ∧ c ≠ 'e' ∧ c ≠ 'E'

theorem stops_nil : Stops [] := by simp [Stops]

theorem stops_cons (h : isDigit c = false ∧ c ≠ '.' ∧ c ≠ 'e' ∧ c ≠ 'E') : Stops (c :: cs) := by
  rintro c' hc'
  cases hc'
  exact h

theorem stops_append (hb : Blank gap) (h : Stops cs) : Stops (gap ++ cs) := by
  cases gap with
  | nil => exact h
  | cons c gap =>
    have hc := hb c List.mem_cons_self
    simp only [isBlank, Bool.or_eq_true, decide_eq_true_eq] at hc
    apply stops_cons
    rcases hc with ((rfl | rfl) | rfl) | rfl <;> decide

theorem isBlank_of_isDigit (h : isDigit c = true) : isBlank c = false := by
  by_contra hb
  simp only [isBlank, Bool.not_eq_false, Bool.or_eq_true, decide_eq_true_eq] at hb
  rcases hb with ((rfl | rfl) | rfl) | rfl <;> exact absurd h (by decide)

theorem takeWhile_digits (h : ∀ c ∈ ds, isDigit c = true)
    (hr : ∀ c ∈ rest.head?, isDigit c = false) :
    (ds ++ rest).takeWhile isDigit = ds ∧ (ds ++ rest).dropWhile isDigit = rest := by
  rw [List.takeWhile_append_of_pos h, List.dropWhile_append_of_pos h]
  cases rest with
  | nil => simp
  | cons c rest =>
    have hc := hr c rfl
    simp [hc]

theorem Digits.singleton {c : Char} (hc : Json.isDigit c = true) : Digits [c] :=
  ⟨List.cons_ne_nil c [], by simpa using hc⟩

theorem digits_append {cut : Problem} (h : Digits ds) (hr : ∀ c ∈ rest.head?, isDigit c = false) :
    digits cut (ds ++ rest) = .ok (ds, rest) := by
  obtain ⟨htake, hdrop⟩ := takeWhile_digits h.isDigit hr
  cases ds with
  | nil => exact absurd rfl h.ne_nil
  | cons c ds =>
    rw [digits.eq_def]
    dsimp only [List.cons_append] at htake hdrop ⊢
    rw [if_pos (h.isDigit c List.mem_cons_self), htake, hdrop]

theorem exists_of_digits {cut : Problem} (h : digits cut cs = .ok (ds, rest)) :
    Digits ds ∧ cs = ds ++ rest := by
  unfold digits at h
  split at h
  · cases h
  next c cs =>
    split at h
    next hc =>
      cases h
      refine ⟨⟨?_, fun d hd => List.all_eq_true.mp List.all_takeWhile d hd⟩,
        List.takeWhile_append_dropWhile.symm⟩
      rw [List.takeWhile_cons_of_pos hc]
      exact List.cons_ne_nil _ _
    · cases h

theorem wholePart_append {cut : Problem} (h : WholeText ds)
    (hr : ∀ c ∈ rest.head?, isDigit c = false) :
    wholePart cut (ds ++ rest) = .ok (ds, rest) := by
  unfold wholePart
  split
  next c rest' heq =>
    -- a zero stands first, so it is the whole part, and no digit follows
    have hzero : ds = ['0'] := by
      apply h.zero
      cases ds with
      | nil => exact absurd rfl h.digits.ne_nil
      | cons d ds => simp_all
    subst hzero
    cases heq
    rw [if_neg (by simp [hr c rfl])]
  · exact digits_append h.digits hr

theorem exists_of_wholePart {cut : Problem} (h : wholePart cut cs = .ok (ds, rest)) :
    WholeText ds ∧ cs = ds ++ rest := by
  unfold wholePart at h
  split at h
  · split at h
    · cases h
    · cases h
      exact ⟨⟨.singleton rfl, fun _ => rfl⟩, rfl⟩
  next hne =>
    obtain ⟨hds, rfl⟩ := exists_of_digits h
    refine ⟨⟨hds, ?_⟩, rfl⟩
    intro hzero
    cases ds with
    | nil => cases hzero
    | cons d ds =>
      obtain rfl : d = '0' := by simpa using hzero
      cases ds with
      | nil => rfl
      | cons d ds => exact absurd rfl (hne d (ds ++ rest))

theorem fractionPart_append {cut : Problem} {fs : List Char} (h : FractionText fs ds)
    (hd : ∀ c ∈ rest.head?, isDigit c = false) (hp : ∀ c ∈ rest.head?, c ≠ '.') :
    fractionPart cut (fs ++ rest) = .ok (ds, rest) := by
  cases h with
  | none =>
    unfold fractionPart
    split
    next heq =>
      cases heq
      exact absurd rfl (hp '.' rfl)
    · rfl
  | point h => exact digits_append h hd

theorem exists_of_fractionPart {cut : Problem} (h : fractionPart cut cs = .ok (ds, rest)) :
    ∃ fs, FractionText fs ds ∧ cs = fs ++ rest := by
  unfold fractionPart at h
  split at h
  · obtain ⟨hds, rfl⟩ := exists_of_digits h
    exact ⟨_, .point hds, rfl⟩
  · cases h
    exact ⟨[], .none, rfl⟩

theorem exponentSign_append {sign : List Char} {below : Bool} (hs : (sign, below) ∈ exponentSigns)
    (h : Digits ds) : exponentSign (sign ++ (ds ++ rest)) = (below, ds ++ rest) := by
  simp only [exponentSigns, List.mem_cons, Prod.mk.injEq, List.not_mem_nil, or_false] at hs
  rcases hs with ⟨rfl, rfl⟩ | ⟨rfl, rfl⟩ | ⟨rfl, rfl⟩
  · cases ds with
    | nil => exact absurd rfl h.ne_nil
    | cons d ds =>
      have hd := h.isDigit d List.mem_cons_self
      rw [List.nil_append, List.cons_append, exponentSign]
      · intro _ heq
        cases heq
        exact absurd hd (by decide)
      · intro _ heq
        cases heq
        exact absurd hd (by decide)
  · rfl
  · rfl

theorem exists_of_exponentSign {below : Bool} (h : exponentSign cs = (below, rest)) :
    ∃ sign, (sign, below) ∈ exponentSigns ∧ cs = sign ++ rest := by
  unfold exponentSign at h
  split at h <;> cases h
  · exact ⟨['-'], by decide, rfl⟩
  · exact ⟨['+'], by decide, rfl⟩
  · exact ⟨[], by decide, rfl⟩

theorem exponentPart_append {cut : Problem} {exponent : Option (Bool × List Char)}
    (h : ExponentText es exponent) (hr : Stops rest) :
    exponentPart cut (es ++ rest) = .ok (exponent, rest) := by
  cases h with
  | none =>
    cases rest with
    | nil => rfl
    | cons c rest =>
      obtain ⟨-, -, hlower, hupper⟩ := hr c rfl
      rw [List.nil_append, exponentPart, if_neg (by simp [hlower, hupper])]
  | @power e sign ds below he hs hds =>
    rw [List.cons_append, exponentPart, if_pos (by simpa using he), List.append_assoc,
      exponentSign_append hs hds]
    simp only [bind, Except.bind]
    rw [digits_append hds fun c hc => (hr c hc).1]
    rfl

theorem exists_of_exponentPart {cut : Problem} {exponent : Option (Bool × List Char)}
    (h : exponentPart cut cs = .ok (exponent, rest)) :
    ∃ es, ExponentText es exponent ∧ cs = es ++ rest := by
  unfold exponentPart at h
  split at h
  next c cs =>
    split at h
    next he =>
      rcases hsplit : exponentSign cs with ⟨below, tail⟩
      obtain ⟨sign, hsign, hcs⟩ := exists_of_exponentSign hsplit
      rw [hsplit] at h
      obtain ⟨⟨ds, rest'⟩, hdigits, h⟩ := bind_eq_ok.mp h
      obtain ⟨hds, hrest⟩ := exists_of_digits hdigits
      cases h
      refine ⟨_, .power (by simpa using he) hsign hds, ?_⟩
      rw [List.cons_append, List.append_assoc, ← hrest, ← hcs]
    · cases h
      exact ⟨[], .none, rfl⟩
  · cases h
    exact ⟨[], .none, rfl⟩

theorem head_exponent {exponent : Option (Bool × List Char)} (h : ExponentText es exponent)
    (hr : Stops rest) : ∀ c ∈ (es ++ rest).head?, isDigit c = false ∧ c ≠ '.' := by
  cases h with
  | none => exact fun c hc => ⟨(hr c hc).1, (hr c hc).2.1⟩
  | power he =>
    intro c hc
    cases hc
    rcases he with rfl | rfl <;> decide

theorem head_fraction {fs : List Char} (h : FractionText fs ds)
    (hr : ∀ c ∈ rest.head?, isDigit c = false) : ∀ c ∈ (fs ++ rest).head?, isDigit c = false := by
  cases h with
  | none => exact hr
  | point h =>
    intro c hc
    cases hc
    decide

theorem scanNumeral_append {cut : Problem} {l : Numeral} (h : l.Unsigned cs) (hr : Stops rest) :
    scanNumeral cut l.negative (cs ++ rest) = .ok (l, rest) := by
  obtain @⟨fs, es, hw, hf, he⟩ := h
  have hexp := head_exponent he hr
  have hfrac := head_fraction hf fun c hc => (hexp c hc).1
  unfold scanNumeral
  rw [List.append_assoc, List.append_assoc, wholePart_append hw hfrac]
  simp only [bind, Except.bind]
  rw [fractionPart_append hf (fun c hc => (hexp c hc).1) (fun c hc => (hexp c hc).2)]
  dsimp only
  rw [exponentPart_append he hr]
  rfl

theorem exists_of_scanNumeral {cut : Problem} {l : Numeral} {negative : Bool}
    (h : scanNumeral cut negative cs = .ok (l, rest)) :
    ∃ body, l.Unsigned body ∧ l.negative = negative ∧ cs = body ++ rest := by
  obtain ⟨⟨whole, rest₁⟩, hwhole, h⟩ := bind_eq_ok.mp h
  obtain ⟨⟨fraction, rest₂⟩, hfraction, h⟩ := bind_eq_ok.mp h
  obtain ⟨⟨exponent, rest₃⟩, hexponent, h⟩ := bind_eq_ok.mp h
  cases h
  obtain ⟨hw, rfl⟩ := exists_of_wholePart hwhole
  obtain ⟨fs, hf, hcs⟩ := exists_of_fractionPart hfraction
  obtain ⟨es, he, hcs'⟩ := exists_of_exponentPart hexponent
  refine ⟨whole ++ (fs ++ es), ⟨hw, hf, he⟩, rfl, ?_⟩
  rw [hcs, hcs', List.append_assoc, List.append_assoc]

/-- An integer is written as its digits. -/
theorem Numeral.Unsigned.integer {l : Numeral} (hw : WholeText l.whole) (hf : l.fraction = [])
    (he : l.exponent = none) : l.Unsigned l.whole := by
  have hparts : l.Unsigned (l.whole ++ ([] ++ [])) := .parts hw (hf ▸ .none) (he ▸ .none)
  simpa using hparts

/-- A numeral starts with a digit behind its sign. -/
theorem Numeral.Unsigned.exists_cons {l : Numeral} (h : l.Unsigned cs) :
    ∃ c cs', cs = c :: cs' ∧ isDigit c = true := by
  obtain @⟨fs, es, hw, -, -⟩ := h
  obtain ⟨c, ds, hds⟩ := List.exists_cons_of_ne_nil hw.digits.ne_nil
  exact ⟨c, ds ++ (fs ++ es), by rw [hds, List.cons_append],
    hw.digits.isDigit c (hds ▸ List.mem_cons_self)⟩

end PullGraph.Json
