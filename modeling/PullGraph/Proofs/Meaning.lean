import PullGraph.Proofs.Entries
import PullGraph.Proofs.Reading

/-! # What trees mean as settings

Some trees denote a value: truth values, texts, integers of 64 bits, and objects of such trees.
An object denotes the map that gives each key its last value. Other trees denote none: null,
arrays, numerals with a fraction or an exponent, a negative zero, integers out of range, and
everything that holds one of these.

Strict reading finds just that, up to a depth (`Tree.read_denotes`, `Tree.denotes_of_read`).
-/
namespace PullGraph.Json

/-! ## Integers -/

/-- A numeral denotes a 64-bit integer. -/
structure Numeral.Denotes (l : Numeral) (n : Int64) : Prop where
  noFraction : l.fraction = []
  noExponent : l.exponent = none
  noNegativeZero : l.negative = true → digitsValue l.whole ≠ 0
  value : n.toInt = if l.negative then -(digitsValue l.whole : Int) else digitsValue l.whole

theorem le_foldl_digits (ds : List Char) (acc : Nat) :
    acc ≤ ds.foldl (fun n d => n * 10 + digitValue d) acc := by
  induction ds generalizing acc with
  | nil => exact Nat.le_refl _
  | cons d ds ih =>
    have := ih (acc * 10 + digitValue d)
    rw [List.foldl_cons]
    omega

/-- All digits are read exactly if the number that they denote fits. -/
theorem gather_eq (ds : List Char) (acc : Nat)
    (h : ds.foldl (fun n d => n * 10 + digitValue d) acc < UInt64.size) :
    gather acc ds = (ds.foldl (fun n d => n * 10 + digitValue d) acc, []) := by
  induction ds generalizing acc with
  | nil => rfl
  | cons d ds ih =>
    rw [List.foldl_cons] at h ⊢
    have hfits := Nat.lt_of_le_of_lt (le_foldl_digits ds (acc * 10 + digitValue d)) h
    rw [gather, if_pos hfits, ih _ h]

theorem gather_fst_of_snd {ds : List Char} {acc n : Nat} (h : gather acc ds = (n, [])) :
    n = ds.foldl (fun n d => n * 10 + digitValue d) acc := by
  induction ds generalizing acc with
  | nil => exact (Prod.mk.inj h).1.symm
  | cons d ds ih =>
    rw [gather] at h
    split at h
    · exact ih h
    · cases h

/-- Only so many digits are read that the number fits. -/
theorem gather_lt {acc : Nat} (h : acc < UInt64.size) (ds : List Char) :
    (gather acc ds).1 < UInt64.size := by
  induction ds generalizing acc with
  | nil => exact h
  | cons d ds ih =>
    rw [gather]
    split
    next hfits => exact ih hfits
    · exact h

/-- A number with a fraction, an exponent or too many digits is no integer. -/
theorem Numeral.exists_float {l : Numeral} {significand : Nat} {shift : Int} {x : Number}
    (h : l.floatValue significand shift = .ok x) : ∃ y, x = .float y := by
  have hscale : ∀ z : Except Problem Float,
      (z.map fun y => Number.float (l.signed y)) = .ok x → ∃ y, x = .float y := by
    intro z hz
    cases z with
    | error e => cases hz
    | ok y => exact ⟨_, (Except.ok.inj hz).symm⟩
  unfold floatValue at h
  split at h
  · exact hscale _ h
  · dsimp only at h
    split at h
    · split at h
      · cases h
      · exact ⟨_, (Except.ok.inj h).symm⟩
    · exact hscale _ h

theorem Numeral.floatValue_setting? (l : Numeral) (significand : Nat) (shift : Int) (v : Value) :
    (l.floatValue significand shift).map Number.setting? ≠ .ok (some v) := by
  cases hx : l.floatValue significand shift with
  | error e => simp [Except.map]
  | ok x =>
    obtain ⟨y, rfl⟩ := exists_float hx
    simp [Except.map, Number.setting?]

theorem Numeral.intValue_setting? (l : Numeral) (v : Value) :
    (l.intValue (digitsValue l.whole)).setting? = some v ↔
      ∃ n : Int64, v = .int n ∧ (l.negative = true → digitsValue l.whole ≠ 0) ∧
        n.toInt = if l.negative then -(digitsValue l.whole : Int) else digitsValue l.whole := by
  have hint : ∀ i : Int,
      (Number.int i).setting? = some v ↔ ∃ n : Int64, v = .int n ∧ n.toInt = i := by
    intro i
    rw [Number.setting?, Option.map_eq_some_iff]
    simp only [toInt64?_eq_some_iff]
    constructor
    · rintro ⟨n, hn, rfl⟩
      exact ⟨n, rfl, hn⟩
    · rintro ⟨n, rfl, hn⟩
      exact ⟨n, hn, rfl⟩
  unfold intValue
  cases l.negative with
  | false => simp [hint]
  | true =>
    simp only [Bool.not_true, Bool.false_eq_true, if_false, if_true, forall_const]
    split
    next hout =>
      -- a negative zero, or below the least integer
      simp only [Number.setting?, reduceCtorEq, false_iff]
      rintro ⟨n, -, hne, hn⟩
      have hlow := n.minValue_le_toInt
      simp only [Bool.or_eq_true, decide_eq_true_eq] at hout
      rw [Int64.toInt_minValue] at hlow
      have hpow : Nat.pow 2 63 = 9223372036854775808 := by decide
      rcases hout with hzero | hlarge
      · exact hne hzero
      · rw [hpow] at hlarge
        omega
    next hin =>
      simp only [Bool.or_eq_true, decide_eq_true_eq, not_or] at hin
      rw [hint]
      constructor
      · rintro ⟨n, hv, hn⟩
        exact ⟨n, hv, hin.1, hn⟩
      · rintro ⟨n, hv, -, hn⟩
        exact ⟨n, hv, hn⟩

/-- Strict reading makes a setting of a numeral exactly if it denotes one. -/
theorem Mode.numeral_eq_ok_some_iff (d : Nat) {l : Numeral} {v : Value} :
    (Mode.strict d).numeral l = .ok (some v) ↔ ∃ n, v = .int n ∧ l.Denotes n := by
  rw [Mode.numeral]
  cases hgather : gather 0 l.whole with
  | mk significand dropped =>
    unfold Numeral.value
    rw [hgather]
    dsimp only
    split
    next hplain =>
      simp only [Bool.and_eq_true, List.isEmpty_iff, Option.isNone_iff_eq_none] at hplain
      obtain ⟨⟨rfl, hf⟩, he⟩ := hplain
      obtain rfl : significand = digitsValue l.whole := gather_fst_of_snd hgather
      have hok : (Except.ok (l.intValue (digitsValue l.whole)) : Except Problem Number).map
          Number.setting? = .ok (some v) ↔
            (l.intValue (digitsValue l.whole)).setting? = some v := by
        simp [Except.map]
      rw [hok, l.intValue_setting? v]
      constructor
      · rintro ⟨n, hv, hz, hn⟩
        exact ⟨n, hv, hf, he, hz, hn⟩
      · rintro ⟨n, hv, -, -, hz, hn⟩
        exact ⟨n, hv, hz, hn⟩
    next hplain =>
      refine iff_of_false (l.floatValue_setting? _ _ v) ?_
      rintro ⟨n, -, h⟩
      apply hplain
      have hfits : digitsValue l.whole < UInt64.size := by
        have hlow := n.minValue_le_toInt
        have hhigh := n.toInt_le
        have hvalue := h.value
        rw [Int64.toInt_minValue] at hlow
        rw [Int64.toInt_maxValue] at hhigh
        have hsize : UInt64.size = 18446744073709551616 := rfl
        split at hvalue <;> omega
      have hdropped := (Prod.mk.inj (hgather.symm.trans (gather_eq l.whole 0 hfits))).2
      simp [hdropped, h.noFraction, h.noExponent]

/-! ## Trees -/

mutual

/-- A tree denotes a value. -/
inductive Tree.Denotes : Tree → Value → Prop where
  | bool (b : Bool) : Tree.Denotes (.bool b) (.bool b)
  | text (s : String) : Tree.Denotes (.text s) (.text s)
  | int {l : Numeral} {n : Int64} (h : l.Denotes n) : Tree.Denotes (.numeral l) (.int n)
  | map {members : Members} {entries : List (String × Value)} {s : Settings}
      (h : Members.Denotes members entries) (hs : s.Gathers entries) :
      Tree.Denotes (.object members) (.map s)

/-- The values of all members denote the values of entries, in order. -/
inductive Members.Denotes : Members → List (String × Value) → Prop where
  | nil : Members.Denotes .nil []
  | cons {key : String} {t : Tree} {v : Value} {rest : Members} {entries : List (String × Value)}
      (h : Tree.Denotes t v) (hr : Members.Denotes rest entries) :
      Members.Denotes (.cons key t rest) ((key, v) :: entries)

end

/-- A tree that denotes nothing by itself. -/
def Tree.IsForeign : Tree → Prop
  | .null => True
  | .array _ => True
  | .numeral l => ∀ n, ¬l.Denotes n
  | _ => False

mutual

/-- Nothing in a tree that denotes a value is foreign. -/
theorem Tree.Denotes.not_contains : ∀ {t : Tree} {v : Value}, t.Denotes v →
    ¬t.Contains Tree.IsForeign
  | _, _, .bool _ => fun h => h
  | _, _, .text _ => fun h => h
  | _, _, .int h => fun hforeign => hforeign _ h
  | _, _, .map h _ => fun hforeign => hforeign.elim id h.not_contain

/-- Nothing in members that denote entries is foreign. -/
theorem Members.Denotes.not_contain : ∀ {members : Members} {entries : List (String × Value)},
    members.Denotes entries → ¬members.Contain Tree.IsForeign
  | _, _, .nil => fun h => h
  | _, _, .cons h hr => fun hforeign => hforeign.elim h.not_contains hr.not_contain

end

/-! ## Members -/

theorem Members.depth_pos : ∀ members : Members, 0 < members.depth
  | .nil => Nat.one_pos
  | .cons _ _ rest => by
    have := rest.depth_pos
    rw [depth]
    omega

/-- Members that denote entries are put in one by one, unless one lies too deep. -/
theorem Members.Denotes.foldM_eq {α : Type} {f : String → Tree → α → Except Problem α}
    {g : String → Value → α → α} {d : Nat}
    (hf : ∀ (key : String) (t : Tree) (v : Value) (acc : α), t.Denotes v →
      f key t acc = if t.depth ≤ d then .ok (g key v acc) else .error .malformed) :
    ∀ {members : Members} {entries : List (String × Value)}, members.Denotes entries → ∀ acc : α,
      members.foldM f acc =
        if members.depth ≤ d + 1 then .ok (entries.foldl (fun acc e => g e.1 e.2 acc) acc)
        else .error .malformed
  | .nil, _, h, acc => by
    cases h
    rw [Members.foldM, Members.depth, if_pos (Nat.le_add_left 1 d), List.foldl_nil]
  | .cons key t rest, _, hall, acc => by
    obtain - | @⟨_, _, v, _, entries, h, hr⟩ := hall
    rw [Members.foldM, hf key t v acc h, Members.depth, List.foldl_cons]
    by_cases ht : t.depth ≤ d
    · have hrest := Members.Denotes.foldM_eq hf hr (g key v acc)
      rw [if_pos ht]
      change rest.foldM f (g key v acc) = _
      rw [hrest]
      congr 1
      rw [Nat.max_le]
      simp [ht]
    · rw [if_neg ht, if_neg (by omega)]
      rfl

/-- What is made of one member of settings. -/
def settingMember (mode : Mode) (key : String) (t : Tree) (acc : Settings) :
    Except Problem Settings := do
  match ← t.read mode with
  | some v => .ok (acc.insert key v)
  | none => .error (.mismatch .noSetting)

theorem settingMember_eq_ok_iff {mode : Mode} {key : String} {t : Tree} {acc s : Settings} :
    settingMember mode key t acc = .ok s ↔
      ∃ v, t.read mode = .ok (some v) ∧ s = acc.insert key v := by
  unfold settingMember
  cases hread : t.read mode with
  | error e => simp [bind, Except.bind]
  | ok v =>
    cases v with
    | none => simp [bind, Except.bind]
    | some v => simp [bind, Except.bind, eq_comm]

/-- Once a member was no setting, nothing comes of the ones behind it. -/
theorem Members.foldM_readMember_none (mode : Mode) : ∀ {members : Members} {s : Option Settings},
    members.foldM (readMember mode) none = .ok s → s = none
  | .nil, _, h => (Except.ok.inj h).symm
  | .cons key t rest, s, h => by
    obtain ⟨acc, hacc, hrest⟩ := bind_eq_ok.mp h
    rw [readMember] at hacc
    cases hread : t.read mode with
    | error e =>
      rw [hread] at hacc
      cases hacc
    | ok v =>
      rw [hread] at hacc
      cases hacc
      exact Members.foldM_readMember_none mode hrest

/-- To stop at the first member that is no setting, or to read to the end and then look:
what is accepted is the same. -/
theorem Members.foldM_readMember_iff (mode : Mode) : ∀ {members : Members} {acc s : Settings},
    members.foldM (readMember mode) (some acc) = .ok (some s) ↔
      members.foldM (settingMember mode) acc = .ok s
  | .nil, acc, s => by simp [foldM]
  | .cons key t rest, acc, s => by
    rw [foldM, foldM, bind_eq_ok, bind_eq_ok]
    constructor
    · rintro ⟨acc', hacc, hrest⟩
      rw [readMember] at hacc
      cases hread : t.read mode with
      | error e =>
        rw [hread] at hacc
        cases hacc
      | ok v =>
        rw [hread] at hacc
        cases hacc
        cases v with
        | none => cases Members.foldM_readMember_none mode hrest
        | some v =>
          exact ⟨_, settingMember_eq_ok_iff.mpr ⟨v, hread, rfl⟩,
            (Members.foldM_readMember_iff mode).mp hrest⟩
    · rintro ⟨acc', hacc, hrest⟩
      obtain ⟨v, hread, rfl⟩ := settingMember_eq_ok_iff.mp hacc
      exact ⟨_, by rw [readMember, hread]; rfl, (Members.foldM_readMember_iff mode).mpr hrest⟩

theorem Members.denotes_of_foldM {mode : Mode}
    (ht : ∀ {t : Tree} {v : Value}, t.read mode = .ok (some v) → t.Denotes v) :
    ∀ {members : Members} {acc s : Settings}, members.foldM (settingMember mode) acc = .ok s →
      ∃ entries, members.Denotes entries ∧ s = entries.foldl (fun s e => s.insert e.1 e.2) acc
  | .nil, _, _, h => ⟨[], .nil, (Except.ok.inj h).symm⟩
  | .cons key t rest, acc, s, h => by
    obtain ⟨acc', hacc, hrest⟩ := bind_eq_ok.mp h
    obtain ⟨v, hread, rfl⟩ := settingMember_eq_ok_iff.mp hacc
    obtain ⟨entries, hentries, rfl⟩ := Members.denotes_of_foldM ht hrest
    exact ⟨(key, v) :: entries, .cons (ht hread) hentries, rfl⟩

/-! ## Reading -/

theorem Tree.read_object {members : Members} {d : Nat} {v : Value} :
    (Tree.object members).read (.strict (d + 1)) = .ok (some v) ↔
      ∃ s, v = .map s ∧ members.foldM (settingMember (.strict d)) .nil = .ok s := by
  rw [Tree.read]
  simp only [Mode.enter, Members.read_eq, ← Members.foldM_readMember_iff]
  cases members.foldM (readMember (.strict d)) (some .nil) with
  | error e => simp [Except.map]
  | ok s => simp [Except.map, and_comm, eq_comm]

/-- Whatever strict reading makes of a tree, the tree denotes it. -/
theorem Tree.denotes_of_read : ∀ {d : Nat} {t : Tree} {v : Value},
    t.read (.strict d) = .ok (some v) → t.Denotes v
  | _, .null, _, h => by cases h
  | _, .bool b, _, h => by
    cases h
    exact .bool b
  | _, .text s, _, h => by
    cases h
    exact .text s
  | d, .numeral l, _, h => by
    obtain ⟨n, rfl, hn⟩ := (Mode.numeral_eq_ok_some_iff d).mp h
    exact .int hn
  | 0, .array items, _, h => by cases h
  | d + 1, .array items, _, h => by
    rw [Tree.read] at h
    simp only [Mode.enter] at h
    cases hread : items.read (.strict d) <;> rw [hread] at h <;> cases h
  | 0, .object members, _, h => by cases h
  | d + 1, .object members, _, h => by
    obtain ⟨s, rfl, hs⟩ := Tree.read_object.mp h
    obtain ⟨entries, hentries, rfl⟩ := Members.denotes_of_foldM Tree.denotes_of_read hs
    exact .map hentries (Settings.gathers_ofList entries)

theorem foldl_addMember (entries : List (String × Value)) (s : Settings) :
    entries.foldl (fun acc e => addMember e.1 (some e.2) acc) (some s) =
      some (entries.foldl (fun s e => s.insert e.1 e.2) s) := by
  induction entries generalizing s with
  | nil => rfl
  | cons e entries ih => exact ih (s.insert e.1 e.2)

/-- A tree that denotes a value is read as that value, unless it is too deep. -/
theorem Tree.read_denotes : ∀ {t : Tree} {v : Value} (d : Nat), t.Denotes v →
    t.read (.strict d) = if t.depth ≤ d then .ok (some v) else .error .malformed
  | _, _, _, .bool b => by rw [Tree.read, Tree.depth, if_pos (Nat.zero_le _)] <;> simp
  | _, _, _, .text s => by rw [Tree.read, Tree.depth, if_pos (Nat.zero_le _)] <;> simp
  | _, _, d, .int h => by
    rw [Tree.read, (Mode.numeral_eq_ok_some_iff d).mpr ⟨_, rfl, h⟩, Tree.depth,
      if_pos (Nat.zero_le _)] <;> simp
  | .object members, _, 0, .map _ _ => by
    have := members.depth_pos
    rw [Tree.depth, if_neg (by omega)]
    rfl
  | .object members, _, d + 1, @Tree.Denotes.map _ entries s h hs => by
    have hmember : ∀ (key : String) (t : Tree) (v : Value) (acc : Option Settings), t.Denotes v →
        readMember (.strict d) key t acc =
          if t.depth ≤ d then .ok (addMember key (some v) acc) else .error .malformed := by
      intro key t v acc ht
      rw [readMember, Tree.read_denotes d ht]
      split <;> rfl
    rw [Tree.read, Tree.depth, hs.unique (Settings.gathers_ofList entries)]
    simp only [Mode.enter, Members.read_eq]
    rw [Members.Denotes.foldM_eq hmember h, foldl_addMember]
    split <;> rfl

end PullGraph.Json
