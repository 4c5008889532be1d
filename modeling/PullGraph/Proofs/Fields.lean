import Mathlib.Logic.Function.Basic
import PullGraph.Proofs.Acceptance
import PullGraph.RunConfig

/-! # The fields of a configuration

A field holds a word, or for the limit of idle rounds a word or nothing. The trees that denote
such a value are numerals without a sign, a fraction or an exponent, in the range of the word, and
null for no limit. What comes of a text that stands for a field depends on its tree alone, as far
as problems are not told apart (`readField_append`), and it is accepted exactly if the tree
denotes a value (`Field.load_eq_ok_iff`).

Some fields may be given and others not. `override` puts what is given in the place of what a
configuration has.
-/
namespace PullGraph

namespace Json

variable {cs rest lead : List Char} {t : Tree}

/-! ## Natural numbers -/

/-- A numeral is written as a natural number: without a sign, a fraction or an exponent. -/
structure Numeral.IsNatural (l : Numeral) (n : Nat) : Prop where
  noSign : l.negative = false
  noFraction : l.fraction = []
  noExponent : l.exponent = none
  value : digitsValue l.whole = n

/-- A tree is the numeral of a natural number. -/
def Tree.IsNatural (t : Tree) (n : Nat) : Prop := ∃ l, t = .numeral l ∧ l.IsNatural n

theorem Numeral.intValue_eq_natural_iff {l : Numeral} {m n : Nat} :
    l.intValue m = .int n ↔ l.negative = false ∧ m = n := by
  unfold intValue
  cases l.negative with
  | false =>
    simp only [Bool.not_false, if_true, Number.int.injEq, true_and]
    omega
  | true =>
    simp only [Bool.not_true, Bool.false_eq_true, if_false, Bool.true_eq_false, false_and,
      iff_false]
    intro h
    split at h
    · cases h
    next hin =>
      simp only [Bool.or_eq_true, decide_eq_true_eq, not_or] at hin
      have := Number.int.inj h
      omega

/-- The value of a numeral is a natural number exactly if it is written as one that fits 64
bits. -/
theorem Numeral.value_eq_natural_iff {l : Numeral} {n : Nat} :
    l.value = .ok (.int n) ↔ l.IsNatural n ∧ n < UInt64.size := by
  have hbound : (gather 0 l.whole).1 < UInt64.size := gather_lt (by decide) l.whole
  unfold Numeral.value
  cases hgather : gather 0 l.whole with
  | mk significand dropped =>
    rw [hgather] at hbound
    dsimp only at hbound ⊢
    split
    next hplain =>
      simp only [Bool.and_eq_true, List.isEmpty_iff, Option.isNone_iff_eq_none] at hplain
      obtain ⟨⟨rfl, hf⟩, he⟩ := hplain
      obtain rfl : significand = digitsValue l.whole := gather_fst_of_snd hgather
      rw [Except.ok.injEq, intValue_eq_natural_iff]
      constructor
      · rintro ⟨hn, rfl⟩
        exact ⟨⟨hn, hf, he, rfl⟩, hbound⟩
      · rintro ⟨h, -⟩
        exact ⟨h.noSign, h.value⟩
    next hplain =>
      refine iff_of_false ?_ ?_
      · intro h
        obtain ⟨y, hy⟩ := exists_float h
        cases hy
      · rintro ⟨h, hlt⟩
        apply hplain
        have hfits : digitsValue l.whole < UInt64.size := h.value ▸ hlt
        have hdropped := (Prod.mk.inj (hgather.symm.trans (gather_eq l.whole 0 hfits))).2
        simp [hdropped, h.noFraction, h.noExponent]

/-- Problems are not told apart. -/
def vague (_ : Problem) : Problem := .malformed

theorem mapError_vague {α : Type} {x : Except Problem α} (h : ∀ a, x ≠ .ok a) :
    x.mapError vague = .error .malformed := by
  cases x with
  | error e => rfl
  | ok a => exact absurd rfl (h a)

/-- The natural number below `size` that a number is. Why a number is none is not told. -/
def Number.natural (size : Nat) : Number → Except Problem Nat
  | .int n => if 0 ≤ n && n < size then .ok n.toNat else .error .malformed
  | .float _ => .error .malformed

/-- The natural number below `size` that a tree is. Why a tree is none is not told. -/
def Tree.natural (size : Nat) : Tree → Except Problem Nat
  | .numeral l => l.value.mapError vague >>= Number.natural size
  | _ => .error .malformed

theorem Number.natural_eq_ok_iff {size n : Nat} {x : Number} :
    x.natural size = .ok n ↔ x = .int n ∧ n < size := by
  unfold natural
  cases x with
  | float x => simp
  | int i =>
    simp only [Bool.and_eq_true, decide_eq_true_eq, Number.int.injEq]
    split
    next hin =>
      rw [Except.ok.injEq]
      omega
    next hout =>
      simp only [reduceCtorEq, false_iff]
      omega

theorem Tree.natural_eq_ok_iff {size n : Nat} (hsize : size ≤ UInt64.size) :
    t.natural size = .ok n ↔ t.IsNatural n ∧ n < size := by
  cases t with
  | numeral l =>
    have hnumeral : (Tree.numeral l).IsNatural n ↔ l.IsNatural n := by simp [Tree.IsNatural]
    rw [Tree.natural, bind_eq_ok, hnumeral]
    simp only [mapError_eq_ok, Number.natural_eq_ok_iff]
    constructor
    · rintro ⟨x, hx, rfl, hlt⟩
      exact ⟨(Numeral.value_eq_natural_iff.mp hx).1, hlt⟩
    · rintro ⟨h, hlt⟩
      exact ⟨.int n, Numeral.value_eq_natural_iff.mpr ⟨h, Nat.lt_of_lt_of_le hlt hsize⟩, rfl, hlt⟩
  | _ => simp [Tree.natural, Tree.IsNatural]

/-! ## Starts of values -/

theorem skipBlanks_start {c : Char} (hl : Blank lead) (hc : isBlank c = false) :
    skipBlanks (lead ++ (c :: cs ++ rest)) = c :: (cs ++ rest) := by
  rw [skipBlanks_append hl, List.cons_append, skipBlanks_cons hc]

theorem unexpected_ne_ok {α : Type} (expected : String) (cs : List Char) (a : α) :
    unexpected expected cs ≠ .ok a := by
  intro h
  obtain ⟨_, _, hcontra⟩ := bind_eq_ok.mp h
  cases hcontra

theorem readNumber_append {l : Numeral} (h : l.Unsigned cs) (hr : Stops rest) :
    readNumber l.negative (cs ++ rest) = l.value.map (·, rest) := by
  rw [readNumber, scanNumeral_append h hr]
  exact bind_eq_map l.value (·, rest)

end Json

namespace RunConfig

open Json

variable {cs rest lead : List Char} {t : Tree}

/-! ## Fields and their values -/

/-- What a field holds. -/
def Field.Value : Field → Type
  | .initialMillis => UInt64
  | .maxMillis => UInt64
  | .maxIdleRounds => Option UInt32

/-- A tree denotes a value of a field: a natural number in its range, or null for a limit that
there is not. -/
def Field.Denotes : (field : Field) → Tree → field.Value → Prop
  | .initialMillis, t, n => t.IsNatural (UInt64.toNat n)
  | .maxMillis, t, n => t.IsNatural (UInt64.toNat n)
  | .maxIdleRounds, t, none => t = .null
  | .maxIdleRounds, t, some n => t.IsNatural (UInt32.toNat n)

/-- The value of a field. -/
def get (c : RunConfig) : (field : Field) → field.Value
  | .initialMillis => c.initialMillis
  | .maxMillis => c.maxMillis
  | .maxIdleRounds => c.maxIdleRounds

/-- The configuration with these values. -/
def ofFields (values : (field : Field) → field.Value) : RunConfig :=
  ⟨values .initialMillis, values .maxMillis, values .maxIdleRounds⟩

theorem get_ofFields (values : (field : Field) → field.Value) : (ofFields values).get = values := by
  funext field
  cases field <;> rfl

/-- The configuration with one field changed. -/
def set (c : RunConfig) (field : Field) (v : field.Value) : RunConfig :=
  ofFields (Function.update c.get field v)

/-- Values for some of the fields. -/
abbrev Overrides : Type := (field : Field) → Option field.Value

/-- The configuration with the values that are given, and its own where none is. -/
def override (c : RunConfig) (o : Overrides) : RunConfig :=
  ofFields fun field => (o field).getD (c.get field)

/-- No value is given. -/
def Overrides.empty : Overrides := fun _ => none

/-- One more value is given. -/
def Overrides.put (o : Overrides) (field : Field) (v : field.Value) : Overrides :=
  Function.update o field (some v)

@[simp]
theorem Overrides.put_same (o : Overrides) (field : Field) (v : field.Value) :
    o.put field v field = some v :=
  Function.update_self ..

@[simp]
theorem Overrides.put_other (o : Overrides) {field other : Field} (h : other ≠ field)
    (v : field.Value) : o.put field v other = o other :=
  Function.update_of_ne h ..

theorem override_of_none (c : RunConfig) {o : Overrides} (h : ∀ field, o field = none) :
    c.override o = c := by
  simp only [override, h, Option.getD_none]
  rfl

/-- A value that was not given before can as well be set first. -/
theorem override_put (c : RunConfig) {o : Overrides} {field : Field} (v : field.Value)
    (h : o field = none) : c.override (o.put field v) = (c.set field v).override o := by
  rw [override, override, set, get_ofFields]
  congr 1
  funext f
  by_cases hf : f = field
  · subst hf
    simp [h]
  · simp [hf]

/-- A field set to what its tree denotes. Why a tree denotes none is not told. -/
def Field.load (field : Field) (t : Tree) (c : RunConfig) : Except Problem RunConfig :=
  match field, t with
  | .initialMillis, t => (t.natural UInt64.size).map fun n => c.set .initialMillis (UInt64.ofNat n)
  | .maxMillis, t => (t.natural UInt64.size).map fun n => c.set .maxMillis (UInt64.ofNat n)
  | .maxIdleRounds, .null => .ok (c.set .maxIdleRounds none)
  | .maxIdleRounds, t =>
    (t.natural UInt32.size).map fun n => c.set .maxIdleRounds (some (UInt32.ofNat n))

theorem Field.load_limit {c : RunConfig} (ht : t ≠ .null) :
    Field.maxIdleRounds.load t c =
      (t.natural UInt32.size).map fun n => c.set .maxIdleRounds (some (UInt32.ofNat n)) := by
  cases t with
  | null => exact absurd rfl ht
  | _ => rfl

/-- A word is loaded from the numeral of its number. -/
theorem map_natural_eq_ok_iff {α : Type} {size : Nat} {ofNat : Nat → α} {toNat : α → Nat}
    {c : RunConfig} (set : α → RunConfig) (hsize : size ≤ UInt64.size)
    (hlt : ∀ a, toNat a < size) (hto : ∀ {n}, n < size → toNat (ofNat n) = n)
    (hof : ∀ {a}, ofNat (toNat a) = a) :
    ((t.natural size).map fun n => set (ofNat n)) = .ok c ↔
      ∃ a, t.IsNatural (toNat a) ∧ c = set a := by
  rw [← bind_eq_map, bind_eq_ok]
  simp only [Tree.natural_eq_ok_iff hsize]
  constructor
  · rintro ⟨n, ⟨hn, hbound⟩, hc⟩
    exact ⟨ofNat n, (hto hbound).symm ▸ hn, (Except.ok.inj hc).symm⟩
  · rintro ⟨a, ha, rfl⟩
    exact ⟨toNat a, ⟨ha, hlt a⟩, congrArg (Except.ok ∘ set) hof⟩

theorem Field.load_eq_ok_iff {field : Field} {c c' : RunConfig} :
    field.load t c = .ok c' ↔ ∃ v, field.Denotes t v ∧ c' = c.set field v := by
  cases field with
  | initialMillis =>
    exact map_natural_eq_ok_iff (c.set .initialMillis) le_rfl UInt64.toNat_lt
      UInt64.toNat_ofNat_of_lt UInt64.ofNat_toNat
  | maxMillis =>
    exact map_natural_eq_ok_iff (c.set .maxMillis) le_rfl UInt64.toNat_lt
      UInt64.toNat_ofNat_of_lt UInt64.ofNat_toNat
  | maxIdleRounds =>
    by_cases ht : t = .null
    · subst ht
      have hnatural : ∀ n, ¬Tree.null.IsNatural n := by simp [Tree.IsNatural]
      constructor
      · intro h
        exact ⟨none, rfl, (Except.ok.inj h).symm⟩
      · rintro ⟨v, hv, rfl⟩
        cases v with
        | none => rfl
        | some n => exact absurd hv (hnatural _)
    · have hsome : Field.maxIdleRounds.load t c = .ok c' ↔
          ∃ n : UInt32, t.IsNatural n.toNat ∧ c' = c.set .maxIdleRounds (some n) := by
        rw [Field.load_limit ht]
        exact map_natural_eq_ok_iff (fun n => c.set .maxIdleRounds (some n)) (by decide)
          UInt32.toNat_lt UInt32.toNat_ofNat_of_lt UInt32.ofNat_toNat
      rw [hsome]
      constructor
      · rintro ⟨n, hn, hc⟩
        exact ⟨some n, hn, hc⟩
      · rintro ⟨v, hv, hc⟩
        cases v with
        | none => exact absurd hv ht
        | some n => exact ⟨n, hv, hc⟩

/-! ## Reading fields -/

/-- A number that has to be natural. -/
def numberBelow (size : Nat) (negative : Bool) (cs : List Char) :
    Except Problem (Nat × List Char) := do
  let (x, rest) ← (readNumber negative cs).mapError vague
  (x.natural size).map (·, rest)

theorem numberBelow_eq {size : Nat} {negative : Bool}
    {check : Number × List Char → Except Problem (Nat × List Char)}
    (h : ∀ x rest, (check (x, rest)).mapError vague = (x.natural size).map (·, rest)) :
    (readNumber negative cs >>= check).mapError vague = numberBelow size negative cs := by
  rw [mapError_bind, numberBelow]
  congr 1
  funext (x, rest)
  exact h x rest

theorem readNatural_eq {c : Char} (expected : String) (size : Nat)
    (hcs : skipBlanks cs = c :: rest) :
    (readNatural expected size cs).mapError vague =
      if c = '-' then numberBelow size true rest
      else if isDigit c then numberBelow size false (c :: rest)
      else .error .malformed := by
  unfold readNatural
  extract_lets check
  have hcheck : ∀ x rest, (check (x, rest)).mapError vague = (x.natural size).map (·, rest) := by
    intro x rest
    cases x with
    | float x => rfl
    | int n =>
      dsimp only [check, Number.natural]
      split <;> rfl
  rw [hcs]
  split
  next heq => cases heq
  next heq =>
    cases heq
    exact numberBelow_eq hcheck
  next hminus heq =>
    cases heq
    rw [if_neg hminus]
    split
    · exact numberBelow_eq hcheck
    · exact mapError_vague (unexpected_ne_ok expected _)

theorem numberBelow_append {size : Nat} {l : Numeral} (h : l.Unsigned cs) (hr : Stops rest) :
    numberBelow size l.negative (cs ++ rest) = ((Tree.numeral l).natural size).map (·, rest) := by
  rw [numberBelow, readNumber_append h hr, Tree.natural]
  cases l.value <;> rfl

/-- What comes of a natural number is a matter of its tree. -/
theorem readNatural_append (expected : String) {size : Nat} (hl : Blank lead)
    (h : t.Written false cs) (hr : Stops rest) :
    (readNatural expected size (lead ++ (cs ++ rest))).mapError vague =
      (t.natural size).map (·, rest) := by
  by_cases hn : ∃ l, t = .numeral l
  · obtain ⟨l, rfl⟩ := hn
    obtain - | - | - | @⟨_, _, hw⟩ := h
    cases hw with
    | positive hsign hw =>
      obtain ⟨c, cs', rfl, hc⟩ := hw.exists_cons
      have hminus : c ≠ '-' := by
        rintro rfl
        exact absurd hc (by decide)
      rw [readNatural_eq expected size (skipBlanks_start hl (isBlank_of_isDigit hc)),
        if_neg hminus, if_pos hc, ← hsign]
      exact numberBelow_append hw hr
    | @negative cs hsign hw =>
      rw [readNatural_eq expected size (skipBlanks_start hl (by decide)), if_pos rfl, ← hsign]
      exact numberBelow_append hw hr
  · obtain ⟨c, cs', rfl, hblank, -, -, hnumeral⟩ := h.exists_start
    obtain ⟨hdigit, hminus⟩ := not_or.mp (mt hnumeral.mp hn)
    rw [readNatural_eq expected size (skipBlanks_start hl hblank), if_neg hminus, if_neg hdigit,
      Tree.natural]
    · rfl
    · exact fun l ht => hn ⟨l, ht⟩

/-- What comes of a field is a matter of its tree. -/
theorem readField_append (field : Field) (c : RunConfig) (hl : Blank lead)
    (h : t.Written false cs) (hr : Stops rest) :
    (readField field (lead ++ (cs ++ rest)) c).mapError vague =
      (field.load t c).map (·, rest) := by
  have hword : ∀ (expected : String) (size : Nat) (put : Nat → RunConfig),
      (readNatural expected size (lead ++ (cs ++ rest)) >>= fun r =>
        pure (put r.1, r.2)).mapError vague = ((t.natural size).map put).map (·, rest) := by
    intro expected size put
    rw [mapError_bind, readNatural_append expected hl h hr]
    cases t.natural size <;> rfl
  cases field with
  | initialMillis => exact hword "u64" UInt64.size fun n => { c with initialMillis := .ofNat n }
  | maxMillis => exact hword "u64" UInt64.size fun n => { c with maxMillis := .ofNat n }
  | maxIdleRounds =>
    obtain ⟨x, cs', rfl, hblank, -, hnull, -⟩ := h.exists_start
    unfold readField
    dsimp only
    rw [skipBlanks_start hl hblank]
    split
    next heq =>
      obtain ⟨hx, htail⟩ := List.cons.inj heq
      obtain rfl := hnull.mp hx
      subst htail
      cases h
      rfl
    next hother =>
      have ht : t ≠ .null := fun ht => hother _ (by rw [hnull.mpr ht])
      rw [Field.load_limit ht]
      exact hword "u32" UInt32.size fun n => { c with maxIdleRounds := some (.ofNat n) }

theorem readField_denotes {field : Field} {v : field.Value} (c : RunConfig) (hl : Blank lead)
    (h : t.Written false cs) (hr : Stops rest) (hv : field.Denotes t v) :
    readField field (lead ++ (cs ++ rest)) c = .ok (c.set field v, rest) := by
  rw [← mapError_eq_ok (e := vague), readField_append field c hl h hr,
    Field.load_eq_ok_iff.mpr ⟨v, hv, rfl⟩]
  rfl

theorem readField_skipBlanks (field : Field) (c : RunConfig) :
    readField field (skipBlanks cs) c = readField field cs c := by
  unfold readField readNatural
  rw [skipBlanks_skipBlanks]

end RunConfig
end PullGraph
