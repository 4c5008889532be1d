import Mathlib.Algebra.Order.Ring.Nat
import PullGraph.RunConfig

/-! # How long a run waits

A backoff multiplies its first wait by a power of two and cuts the product off twice: durations
end somewhere, and the backoff has a longest wait. The second cut hides the first, so the wait is
the one that unbounded arithmetic gives (`Duration.nanos_min_scale`). The factor doubles up to
`2 ^ 31` and then stays at `2 ^ 32 - 1`, which is less than twice as much; so waits never shrink
while a run is idle, and none is more than twice the one before it. But where the greatest factor
falls short of the longest wait, so do all waits (`Backoff.spans_iff`).
-/
namespace PullGraph

/-! ## Durations -/

attribute [ext] Duration

theorem Duration.nanos_min (d e : Duration) : (d.min e).nanos = Min.min d.nanos e.nanos := by
  unfold Duration.min
  split <;> omega

theorem Duration.nanos_scale (d : Duration) (k : Nat) :
    (d.scale k).nanos = Min.min (d.nanos * k) limit := rfl

/-- A product that does not fit a duration lies beyond every maximum, so it does not show that it
was cut off. -/
theorem Duration.nanos_min_scale (d e : Duration) (k : Nat) :
    ((d.scale k).min e).nanos = Min.min (d.nanos * k) e.nanos := by
  have := e.bounded
  rw [nanos_min, nanos_scale]
  omega

namespace Backoff

variable {b : Backoff} {m n : UInt32} {d e : Duration}

/-! ## Factors -/

theorem factor_eq (n : UInt32) : factor n = min (2 ^ (max n.toNat 1 - 1)) (2 ^ 32 - 1) := by
  have hexponent : max n.toNat 1 - 1 = n.toNat - 1 := by omega
  rw [hexponent]
  unfold factor
  split
  next hsmall =>
    have hpow : 2 ^ (n.toNat - 1) ≤ 2 ^ 31 := Nat.pow_le_pow_right (by decide) (by omega)
    exact (min_eq_left (hpow.trans (by decide))).symm
  next hlarge =>
    have hpow : 2 ^ 32 ≤ 2 ^ (n.toNat - 1) := Nat.pow_le_pow_right (by decide) (by omega)
    exact (min_eq_right ((by decide : 2 ^ 32 - 1 ≤ 2 ^ 32).trans hpow)).symm

theorem one_le_factor (n : UInt32) : 1 ≤ factor n := by
  rw [factor_eq]
  exact le_min Nat.one_le_two_pow (by decide)

theorem factor_one : factor 1 = 1 := rfl

theorem factor_mono (h : m ≤ n) : factor m ≤ factor n := by
  rw [UInt32.le_iff_toNat_le] at h
  rw [factor_eq, factor_eq]
  exact min_le_min_right _ (Nat.pow_le_pow_right (by decide) (by omega))

/-- One idle round more at most doubles the factor. -/
theorem factor_le_double (h : n.toNat = m.toNat + 1) : factor n ≤ 2 * factor m := by
  rw [factor_eq, factor_eq]
  have hpow : 2 ^ (max n.toNat 1 - 1) ≤ 2 * 2 ^ (max m.toNat 1 - 1) := by
    rw [← Nat.pow_succ']
    exact Nat.pow_le_pow_right (by decide) (by omega)
  omega

/-! ## Delays -/

theorem delay_eq_none_iff_exceeds : b.delay n = none ↔ ∃ l, b.limit = some l ∧ l < n := by
  unfold delay
  cases b.limit <;> simp

theorem delay_eq_none_iff {limit : UInt32} (hlimit : b.limit = some limit) (idle : UInt32) :
    b.delay idle = none ↔ limit.toNat < idle.toNat := by
  rw [delay_eq_none_iff_exceeds, ← UInt32.lt_iff_toNat_lt, hlimit]
  simp

/-- A wait is the multiple of the first one that is due, up to the longest. -/
theorem delay_eq_some_iff :
    b.delay n = some d ↔
      (∀ l, b.limit = some l → n ≤ l) ∧
        d.nanos = min (b.initial.nanos * factor n) b.maximum.nanos := by
  have hlimit : b.limit.any (· < n) = false ↔ ∀ l, b.limit = some l → n ≤ l := by
    cases b.limit <;> simp
  rw [← hlimit, ← Duration.nanos_min_scale, delay]
  cases b.limit.any (· < n) with
  | true => simp
  | false => simp [Duration.ext_iff, eq_comm]

/-- Before a round after which a run still waits, it waited as well. -/
theorem exists_delay_of_le (h : m ≤ n) (hn : b.delay n = some e) :
    ∃ d, b.delay m = some d ∧ d.nanos = min (b.initial.nanos * factor m) b.maximum.nanos := by
  obtain ⟨hlimit, -⟩ := delay_eq_some_iff.mp hn
  cases hm : b.delay m with
  | none =>
    obtain ⟨l, hl, hlt⟩ := delay_eq_none_iff_exceeds.mp hm
    exact absurd (hlimit l hl) (UInt32.not_le.mpr (UInt32.lt_of_lt_of_le hlt h))
  | some d => exact ⟨d, rfl, (delay_eq_some_iff.mp hm).2⟩

theorem delay_mono (h : m ≤ n) (hn : b.delay n = some e) :
    ∃ d, b.delay m = some d ∧ d.nanos ≤ e.nanos := by
  obtain ⟨d, hm, hd⟩ := exists_delay_of_le h hn
  refine ⟨d, hm, ?_⟩
  rw [hd, (delay_eq_some_iff.mp hn).2]
  exact min_le_min_right _ (Nat.mul_le_mul_left _ (factor_mono h))

theorem delay_le_double (h : n.toNat = m.toNat + 1) (hn : b.delay n = some e) :
    ∃ d, b.delay m = some d ∧ e.nanos ≤ 2 * d.nanos := by
  have hle : m ≤ n := UInt32.le_iff_toNat_le.mpr (by omega)
  obtain ⟨d, hm, hd⟩ := exists_delay_of_le hle hn
  refine ⟨d, hm, ?_⟩
  have hproduct : b.initial.nanos * factor n ≤ 2 * (b.initial.nanos * factor m) :=
    calc b.initial.nanos * factor n
      _ ≤ b.initial.nanos * (2 * factor m) := Nat.mul_le_mul_left _ (factor_le_double h)
      _ = 2 * (b.initial.nanos * factor m) := Nat.mul_left_comm _ _ _
  rw [hd, (delay_eq_some_iff.mp hn).2]
  omega

end Backoff

/-! ## Configured waits -/

/-- The first wait of a configuration is not cut off, also if its maximum is below it. -/
theorem RunConfig.initial_le_maximum (c : RunConfig) :
    c.backoff.initial.nanos ≤ c.backoff.maximum.nanos := by
  have hle : c.initialMillis.toNat ≤ (max c.maxMillis c.initialMillis).toNat := by
    change _ ≤ (if c.maxMillis ≤ c.initialMillis then _ else _ : UInt64).toNat
    split
    · exact le_rfl
    next hlt =>
      rw [UInt64.le_iff_toNat_le] at hlt
      omega
  exact Nat.mul_le_mul_right _ hle

theorem RunConfig.initial_le_delay (c : RunConfig) {n : UInt32} {d : Duration}
    (h : c.backoff.delay n = some d) : c.backoff.initial.nanos ≤ d.nanos := by
  rw [(Backoff.delay_eq_some_iff.mp h).2]
  exact le_min (Nat.le_mul_of_pos_right _ (Backoff.one_le_factor n)) c.initial_le_maximum

theorem RunConfig.delay_one (c : RunConfig) {d : Duration} (h : c.backoff.delay 1 = some d) :
    d = c.backoff.initial := by
  rw [Duration.ext_iff, (Backoff.delay_eq_some_iff.mp h).2, Backoff.factor_one, Nat.mul_one]
  exact min_eq_left c.initial_le_maximum

/-- **Waits are what unbounded arithmetic makes them, and they neither shrink nor jump.** A
backoff gives up exactly beyond its limit. Until then the wait after `n` idle rounds is the first
one times `2 ^ (n - 1)`, but no more than `2 ^ 32 - 1` times it, up to the maximum. It is at least
the wait after fewer rounds and at most twice the one before it. With a configured backoff no
wait is below the configured first one, which is the wait after one idle round. -/
theorem waits_exact :
    (∀ (b : Backoff) (n : UInt32),
      (b.delay n = none ↔ ∃ l, b.limit = some l ∧ l < n) ∧
      ∀ d, b.delay n = some d →
        d.nanos = min (b.initial.nanos * min (2 ^ (max n.toNat 1 - 1)) (2 ^ 32 - 1))
          b.maximum.nanos ∧
        d.nanos ≤ b.maximum.nanos ∧
        (∀ m ≤ n, ∃ d', b.delay m = some d' ∧ d'.nanos ≤ d.nanos) ∧
        ∀ m : UInt32, n.toNat = m.toNat + 1 → ∃ d', b.delay m = some d' ∧ d.nanos ≤ 2 * d'.nanos) ∧
    ∀ c : RunConfig,
      (∀ n d, c.backoff.delay n = some d → (Duration.ofMillis c.initialMillis).nanos ≤ d.nanos) ∧
      ∀ d, c.backoff.delay 1 = some d → d = Duration.ofMillis c.initialMillis := by
  refine ⟨fun b n => ⟨Backoff.delay_eq_none_iff_exceeds, fun d h => ?_⟩,
    fun c => ⟨fun n d => c.initial_le_delay, fun d => c.delay_one⟩⟩
  have hd := (Backoff.delay_eq_some_iff.mp h).2
  refine ⟨Backoff.factor_eq n ▸ hd, ?_, fun m hm => Backoff.delay_mono hm h,
    fun m hm => Backoff.delay_le_double hm h⟩
  rw [hd]
  exact min_le_right _ _

/-- From 32 to 33 idle rounds the wait does not quite double. A configured maximum below the first
wait does not shorten it. -/
theorem waits_at_width :
    let b : Backoff := ⟨.ofParts 0 1, .ofParts 5 0, some 33⟩
    let c : RunConfig := ⟨5, 2, none⟩
    (b.delay 33 = some (.ofParts 4 294967295) ∧ b.delay 34 = none ∧
      ∃ d, b.delay 32 = some d ∧ 4294967295 ≤ 2 * d.nanos) ∧
    c.backoff.delay 1 = some (.ofMillis 5) ∧ (Duration.ofMillis 5) = .ofMillis c.initialMillis := by
  refine ⟨⟨by decide +kernel, (waits_exact.1 _ 34).1.mpr ⟨33, rfl, by decide⟩, ?_⟩, ?_⟩
  · have h := (waits_exact.1 ⟨.ofParts 0 1, .ofParts 5 0, some 33⟩ 33).2 (.ofParts 4 294967295)
      (by decide +kernel)
    exact h.2.2.2 32 (by decide)
  · have h : (RunConfig.mk 5 2 none).backoff.delay 1 = some (.ofMillis 5) := by decide +kernel
    exact ⟨h, (waits_exact.2 _).2 _ h⟩

/-! ## Whether waits really double

The factor falls behind the powers of two from the 33rd idle round on. That does not show if the
first wait is none at all, or if the maximum has been reached by then.
-/

namespace Backoff

variable {b : Backoff} {m n : UInt32} {d : Duration}

/-- The greatest multiple of the first wait that is ever due reaches the maximum. -/
def Spans (b : Backoff) : Prop := b.maximum.nanos ≤ b.initial.nanos * (2 ^ 32 - 1)

instance (b : Backoff) : Decidable b.Spans := inferInstanceAs (Decidable (_ ≤ _))

theorem factor_of_le (h : n ≤ 32) : factor n = 2 ^ (n.toNat - 1) := by
  have hle : n.toNat ≤ 32 := UInt32.le_iff_toNat_le.mp h
  exact if_pos (by omega)

theorem factor_of_lt (h : 32 < n) : factor n = 2 ^ 32 - 1 := by
  have hlt : 32 < n.toNat := UInt32.lt_iff_toNat_lt.mp h
  exact if_neg (by omega)

theorem factor_le (n : UInt32) : factor n ≤ 2 ^ 32 - 1 := by
  rw [factor_eq]
  exact min_le_right _ _

/-- A power of two is hidden by the maximum exactly if the factor is. -/
theorem min_mul_factor_eq_iff (first longest : Nat) (n : UInt32) :
    min (first * factor n) longest = min (first * 2 ^ (n.toNat - 1)) longest ↔
      n ≤ 32 ∨ first = 0 ∨ longest ≤ first * (2 ^ 32 - 1) := by
  by_cases hsmall : n ≤ 32
  · simp [hsmall, factor_of_le hsmall]
  have hlarge : 32 < n := UInt32.not_le.mp hsmall
  have hlt : 32 < n.toNat := UInt32.lt_iff_toNat_lt.mp hlarge
  have hpow : 2 ^ 32 ≤ 2 ^ (n.toNat - 1) := Nat.pow_le_pow_right (by decide) (by omega)
  rw [factor_of_lt hlarge]
  constructor
  · intro heq
    refine .inr (or_iff_not_imp_left.mpr fun hfirst => ?_)
    -- otherwise the one is not cut off, and the other is longer
    by_contra hshort
    have hlonger : first * (2 ^ 32 - 1) < first * 2 ^ (n.toNat - 1) :=
      Nat.mul_lt_mul_of_pos_left (by omega) (Nat.pos_of_ne_zero hfirst)
    omega
  · rintro (h | rfl | hreaches)
    · exact absurd h hsmall
    · simp
    · have hlonger : first * (2 ^ 32 - 1) ≤ first * 2 ^ (n.toNat - 1) :=
        Nat.mul_le_mul_left _ (by omega)
      omega

theorem exists_delay (h : ∀ l, b.limit = some l → n ≤ l) :
    ∃ d, b.delay n = some d ∧ d.nanos = min (b.initial.nanos * factor n) b.maximum.nanos :=
  ⟨_, delay_eq_some_iff.mpr ⟨h, Duration.nanos_min_scale _ _ _⟩, Duration.nanos_min_scale _ _ _⟩

theorem delay_eq_maximum_iff (hlimit : b.limit = none) :
    b.delay n = some b.maximum ↔ b.maximum.nanos ≤ b.initial.nanos * factor n := by
  rw [delay_eq_some_iff, hlimit]
  simp

/-- If the longest wait is due at all, then it is from the 33rd idle round on. -/
theorem spans_iff (hlimit : b.limit = none) : b.Spans ↔ ∃ n, b.delay n = some b.maximum := by
  simp only [delay_eq_maximum_iff hlimit]
  constructor
  · intro hspans
    refine ⟨33, ?_⟩
    rwa [factor_of_lt (by decide)]
  · rintro ⟨n, hn⟩
    exact hn.trans (Nat.mul_le_mul_left _ (factor_le n))

/-- **Waits double up to the maximum as far as the factor goes.** The wait after `n` idle rounds
is the first one times `2 ^ (n - 1)`, up to the maximum, for the first 32 rounds; after more of
them it is so exactly if there is no first wait or its greatest multiple reaches the maximum.
Without a limit the longest wait is ever due exactly in the latter case: then it is due from the
33rd round on at the latest, and from when it is due it stays. -/
theorem doubles_up_to_maximum (b : Backoff) :
    (∀ n : UInt32, 1 ≤ n → (∀ l, b.limit = some l → n ≤ l) → ∃ d, b.delay n = some d ∧
      (d.nanos = min (b.initial.nanos * 2 ^ (n.toNat - 1)) b.maximum.nanos ↔
        n ≤ 32 ∨ b.initial.nanos = 0 ∨ b.Spans)) ∧
    (b.limit = none →
      ((∃ n, b.delay n = some b.maximum) ↔ b.Spans) ∧
      (b.Spans → ∀ n, 33 ≤ n → b.delay n = some b.maximum) ∧
      ∀ m n, m ≤ n → b.delay m = some b.maximum → b.delay n = some b.maximum) := by
  refine ⟨fun n _ hwithin => ?_, fun hlimit => ⟨(spans_iff hlimit).symm, fun hspans n hn => ?_,
    fun m n hle hm => ?_⟩⟩
  · obtain ⟨d, hdelay, hd⟩ := exists_delay hwithin
    refine ⟨d, hdelay, ?_⟩
    rw [hd]
    exact min_mul_factor_eq_iff _ _ _
  · rw [delay_eq_maximum_iff hlimit, factor_of_lt (UInt32.lt_of_lt_of_le (by decide) hn)]
    exact hspans
  · rw [delay_eq_maximum_iff hlimit] at hm ⊢
    exact hm.trans (Nat.mul_le_mul_left _ (factor_mono hle))

/-- A maximum that the greatest multiple just reaches. -/
theorem brim_reached :
    let b : Backoff := ⟨.ofParts 0 1, .ofParts 4 294967295, none⟩
    b.Spans ∧ (∀ n, 33 ≤ n → b.delay n = some b.maximum) ∧
      ∃ d, b.delay 40 = some d ∧ d.nanos = min (1 * 2 ^ 39) 4294967295 := by
  intro b
  have hspans : b.Spans := by decide +kernel
  obtain ⟨hdouble, hunlimited⟩ := b.doubles_up_to_maximum
  obtain ⟨d, hdelay, hd⟩ := hdouble 40 (by decide) (by simp [b])
  exact ⟨hspans, (hunlimited rfl).2.1 hspans, d, hdelay, hd.mpr (.inr (.inr hspans))⟩

/-- From one nanosecond the waits do not get to five seconds, although there is no limit: the
wait after 33 idle rounds is one nanosecond short of the double of the one before, and all later
ones are the same. -/
theorem short_of_maximum :
    let b : Backoff := ⟨.ofParts 0 1, .ofParts 5 0, none⟩
    b.initial.nanos ≠ 0 ∧ b.limit = none ∧
      b.delay 33 = some (.ofParts 4 294967295) ∧
      (Duration.ofParts 4 294967295).nanos ≠ min (b.initial.nanos * 2 ^ 32) b.maximum.nanos ∧
      ∀ n, b.delay n ≠ some b.maximum := by
  intro b
  refine ⟨by decide +kernel, rfl, by decide +kernel, by decide +kernel, fun n hn => ?_⟩
  have hspans : ¬ b.Spans := by decide +kernel
  exact hspans ((spans_iff rfl).mpr ⟨n, hn⟩)

end Backoff

end PullGraph
