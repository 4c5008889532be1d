import PullGraph.Proofs.Supply

/-! # What a counter gives

A counter adds up its end once, when it is set up, and refuses settings whose end is out of range.
From then on it counts without a check. It does not overflow all the same, because it stops at
the end: after `i` pulls its next number is exactly the start plus `i`, or the end if that comes
first (`Standard.Counted`). So it gives the integers of its range in order and then ends, whichever
ports it is asked on.
-/
namespace PullGraph

variable {κ ω : Type}

/-- A source is asked on one port after the other; its answers stand in the order of the pulls. -/
def emitAll [Behavior κ ω] : List String → κ → Act ω (List (Except Fault Pull) × κ)
  | [], k => pure ([], k)
  | port :: ports, k => do
    let (r, k) ← Behavior.emit port k
    let (rs, k) ← emitAll ports k
    pure (r :: rs, k)

namespace Standard

variable {settings : Settings} {start count : Int64} {i : Nat} {k : Standard ω}

/-! ## Setting up -/

/-- Settings ask for `count` integers from `start` on, which is zero unless they say so, and the
end of this range has 64 bits as well. -/
structure AsksFor (settings : Settings) (start count : Int64) : Prop where
  hasCount : settings.get? "count" = some (.int count)
  nonneg : 0 ≤ count.toInt
  hasStart : settings.get? "start" = some (.int start) ∨ settings.get? "start" = none ∧ start = 0
  fits : ∃ stop : Int64, stop.toInt = start.toInt + count.toInt

theorem integerSetting_eq_ok_iff {key : String} {missing : Except Fault Int64} {n : Int64} :
    integerSetting settings key missing = .ok n ↔
      settings.get? key = some (.int n) ∨ settings.get? key = none ∧ missing = .ok n := by
  unfold integerSetting
  split
  next h => simp [h]
  next h => simp [h]
  next v hv h => simp_all

theorem counterSettings_eq_ok_iff :
    counterSettings settings = .ok (start, count) ↔
      settings.get? "count" = some (.int count) ∧ 0 ≤ count.toInt ∧
        (settings.get? "start" = some (.int start) ∨
          settings.get? "start" = none ∧ start = 0) := by
  have hcount : ∀ n : Int64,
      integerSetting settings "count" (.error (.own "missing required parameter 'count'")) = .ok n ↔
        settings.get? "count" = some (.int n) := by
    simp [integerSetting_eq_ok_iff]
  have hstart : ∀ n : Int64, integerSetting settings "start" (.ok 0) = .ok n ↔
      settings.get? "start" = some (.int n) ∨ settings.get? "start" = none ∧ n = 0 := by
    intro n
    rw [integerSetting_eq_ok_iff, Except.ok.injEq, @eq_comm _ (0 : Int64)]
  have hsign : ∀ n : Int64, n < 0 ↔ ¬0 ≤ n.toInt := by
    intro n
    rw [Int64.lt_iff_toInt_lt, Int64.toInt_zero, Int.not_le]
  unfold counterSettings
  simp only [bind_eq_ok, hcount]
  constructor
  · rintro ⟨n, hn, h⟩
    split at h
    · cases h
    next hneg =>
      obtain ⟨m, hm, hpair⟩ := bind_eq_ok.mp h
      cases hpair
      exact ⟨hn, by simpa [hsign] using hneg, (hstart start).mp hm⟩
  · rintro ⟨hn, hnonneg, hm⟩
    refine ⟨count, hn, ?_⟩
    rw [if_neg (by simpa [hsign] using hnonneg), (hstart start).mpr hm]
    rfl

theorem setUp_counter (settings : Settings) (next stop : Int64) (w : ω) :
    Behavior.setUp settings (.counter next stop : Standard ω) w =
      ⟨setUpCounter settings next stop, w, []⟩ := rfl

/-- A counter that is set up well starts at its start and stops at its end. -/
theorem setUpCounter_of_asksFor (h : AsksFor settings start count) (next stop : Int64) :
    ∃ stop', stop'.toInt = start.toInt + count.toInt ∧
      setUpCounter settings next stop = (.ok (), (.counter start stop' : Standard ω)) := by
  obtain ⟨stop', hstop⟩ := h.fits
  refine ⟨stop', hstop, ?_⟩
  unfold setUpCounter
  rw [counterSettings_eq_ok_iff.mpr ⟨h.hasCount, h.nonneg, h.hasStart⟩]
  dsimp only
  rw [toInt64?_eq_some_iff.mpr hstop]

theorem asksFor_of_setUpCounter {next stop : Int64}
    (h : (setUpCounter settings next stop : Except Fault Unit × Standard ω).1 = .ok ()) :
    ∃ start count, AsksFor settings start count := by
  unfold setUpCounter at h
  split at h
  · cases h
  next start count hsettings =>
    obtain ⟨hcount, hnonneg, hstart⟩ := counterSettings_eq_ok_iff.mp hsettings
    split at h
    next stop' hstop =>
      exact ⟨start, count, hcount, hnonneg, hstart, stop', toInt64?_eq_some_iff.mp hstop⟩
    · cases h

/-! ## Counting -/

/-- A counter after `i` pulls. Its numbers are those that unbounded arithmetic gives. -/
inductive Counted (start count : Int64) (i : Nat) : Standard ω → Prop where
  | numbers {next stop : Int64} (hnext : next.toInt = start.toInt + min (i : Int) count.toInt)
      (hstop : stop.toInt = start.toInt + count.toInt) : Counted start count i (.counter next stop)

/-- The answer to a pull after `i` others. -/
def Answers (start count : Int64) (i : Nat) (r : Except Fault Pull) : Prop :=
  if (i : Int) < count.toInt then
    ∃ n : Int64, n.toInt = start.toInt + i ∧ r = .ok (.message (.int n))
  else r = .ok .endOfStream

/-- One pull. The addition is exact because the sum is at most the end. -/
theorem Counted.emit (h : Counted start count i k) :
    Answers start count i (.ok k.emit.1) ∧ Counted start count (i + 1) k.emit.2 := by
  obtain @⟨next, stop, hnext, hstop⟩ := h
  have hlt : next < stop ↔ (i : Int) < count.toInt := by
    rw [Int64.lt_iff_toInt_lt]
    omega
  by_cases hi : (i : Int) < count.toInt
  · have hemit : (counter next stop : Standard ω).emit =
        (.message (.int next), .counter (next + 1) stop) := if_pos (hlt.mpr hi)
    rw [hemit, Answers, if_pos hi]
    refine ⟨⟨next, by omega, rfl⟩, .numbers ?_ hstop⟩
    rw [toInt_succ (hlt.mpr hi)]
    omega
  · have hemit : (counter next stop : Standard ω).emit = (.endOfStream, .counter next stop) :=
      if_neg (mt hlt.mp hi)
    rw [hemit, Answers, if_neg hi]
    exact ⟨rfl, .numbers (by omega) hstop⟩

/-- Any number of pulls, whatever the ports. Nothing else happens. -/
theorem Counted.emitAll (h : Counted start count i k) (ports : List String) (w : ω) :
    ∃ rs k', PullGraph.emitAll ports k w = ⟨(rs, k'), w, []⟩ ∧ rs.length = ports.length ∧
      (∀ j r, rs[j]? = some r → Answers start count (i + j) r) ∧
      Counted start count (i + ports.length) k' := by
  induction ports generalizing i k with
  | nil => exact ⟨[], k, rfl, rfl, by simp, h⟩
  | cons port ports ih =>
    obtain ⟨hanswer, hnext⟩ := h.emit
    obtain ⟨rs, k', hrest, hlength, hanswers, hlast⟩ := ih hnext
    refine ⟨.ok k.emit.1 :: rs, k', ?_, by simp [hlength], ?_, ?_⟩
    · simp only [PullGraph.emitAll, bind, Act.bind, Behavior.emit, pure, Act.pure, Prod.map,
        id, hrest, List.append_nil]
    · rintro (- | j) r hr
      · cases hr
        exact hanswer
      · have := hanswers j r hr
        rwa [Nat.add_assoc, Nat.add_comm 1] at this
    · rwa [Nat.add_assoc, Nat.add_comm 1] at hlast

/-- **A counter gives exactly its range and does not overflow.** It can be set up, in whatever
state it is, exactly if its settings ask for a number of integers that is not negative, from an
integer or from zero on, and the end of that range is an integer of 64 bits. Then, on whichever
ports it is pulled and however often, the pull after `i` others is answered by the integer
`start + i` as long as `i` is below `count`, and by the end of the stream from there on. After
every pull the next number is the one that unbounded arithmetic gives, and so is the sum that the
pull after it adds up. -/
theorem counter_gives_range (settings : Settings) (next stop : Int64) (w : ω) :
    ((Behavior.setUp settings (.counter next stop : Standard ω) w).value.1 = .ok () ↔
      ∃ start count, AsksFor settings start count) ∧
    ∀ start count, AsksFor settings start count →
      ∃ k : Standard ω,
        Behavior.setUp settings (.counter next stop : Standard ω) w = ⟨(.ok (), k), w, []⟩ ∧
        ∀ (ports : List String) (w : ω), ∃ rs next stop,
          PullGraph.emitAll ports k w = ⟨(rs, .counter next stop), w, []⟩ ∧
          rs.length = ports.length ∧ (∀ i r, rs[i]? = some r → Answers start count i r) ∧
          next.toInt = start.toInt + min (ports.length : Int) count.toInt ∧
          stop.toInt = start.toInt + count.toInt ∧
          (next < stop → (next + 1).toInt = next.toInt + 1) := by
  constructor
  · constructor
    · exact asksFor_of_setUpCounter
    · rintro ⟨start, count, h⟩
      obtain ⟨stop', -, hready⟩ := setUpCounter_of_asksFor (ω := ω) h next stop
      exact congrArg Prod.fst hready
  · intro start count h
    obtain ⟨stop', hstop, hready⟩ := setUpCounter_of_asksFor (ω := ω) h next stop
    have hstart : Counted start count 0 (.counter start stop' : Standard ω) :=
      .numbers (by have := h.nonneg; omega) hstop
    refine ⟨.counter start stop', by rw [setUp_counter, hready], fun ports w => ?_⟩
    obtain ⟨rs, k, hpulled, hlength, hanswers, hlast⟩ := hstart.emitAll ports w
    obtain @⟨next', stop'', hnext, hstop'⟩ := hlast
    refine ⟨rs, next', stop'', hpulled, hlength, ?_, ?_, hstop', toInt_succ⟩
    · simpa using hanswers
    · simpa using hnext

/-- The last two integers but one, which a counter gives without going past the greatest. -/
def brim : Settings := .ofList [("count", .int 2), ("start", .int (Int64.maxValue - 2))]

theorem brim_counted :
    AsksFor brim (Int64.maxValue - 2) 2 ∧
      ∃ k : Standard Unit,
        Behavior.setUp brim (.counter 0 0 : Standard Unit) () = ⟨(.ok (), k), (), []⟩ ∧
        ∃ rs next stop,
          PullGraph.emitAll ["out", "aside", "out"] k () = ⟨(rs, .counter next stop), (), []⟩ ∧
          (∀ i r, rs[i]? = some r → Answers (Int64.maxValue - 2) 2 i r) ∧
          next = Int64.maxValue := by
  have h : AsksFor brim (Int64.maxValue - 2) 2 :=
    ⟨by decide +kernel, by decide, .inl (by decide +kernel), Int64.maxValue, by decide⟩
  obtain ⟨k, hready, hpulls⟩ := (counter_gives_range brim 0 0 ()).2 _ _ h
  obtain ⟨rs, next, stop, hpulled, -, hanswers, hnext, -, -⟩ := hpulls ["out", "aside", "out"] ()
  exact ⟨h, k, hready, rs, next, stop, hpulled, hanswers,
    Int64.toInt_inj.mp (hnext.trans (by decide))⟩

end Standard
end PullGraph
