import WirelessMesh.Slic.Line
import Mathlib.Algebra.Ring.Parity
import Mathlib.Tactic.Ring

/-!
# Debouncing the hook

The card reads the hook of a telephone at every poll. A sample that differs from the one before
starts a countdown, and the samples that follow it run the countdown down as long as they stay
the same. The level at its end is reported to the line if it is not the reported one already.
The option `robust` is off.
-/

namespace WirelessMesh
namespace Slic

structure FxsHook where
  lastrxhook : Bool
  debounce : ℤ
  debouncehook : Bool
  oldrxhook : Bool

def hookReport (level : Bool) : RxSig := if level then .offhook else .onhook

namespace FxsHook

def start : FxsHook := ⟨false, 0, false, false⟩

/-- The report at the end of `__wcfxs_proslic_check_hook`. -/
def report (fxs : FxsHook) : FxsHook × Option RxSig :=
  if fxs.oldrxhook = false ∧ fxs.debouncehook then ({ fxs with oldrxhook := true }, some .offhook)
  else if fxs.oldrxhook ∧ fxs.debouncehook = false then
    ({ fxs with oldrxhook := false }, some .onhook)
  else (fxs, none)

/-- `__wcfxs_proslic_check_hook`, for the sample `hook`, with what it passes to
`as_io_channel_hooksig`. -/
def proslicCheckHook (arm : Bool) (hook : Bool) (fxs : FxsHook) : FxsHook × Option RxSig :=
  let (fxs, rxsig) :=
    if hook ≠ fxs.lastrxhook then ({ fxs with debounce := 8 * (4 * 8) }, none)
    else if 0 < fxs.debounce then
      let fxs := { fxs with debounce := fxs.debounce - 4 * asChunksize arm }
      report { fxs with debouncehook := if fxs.debounce = 0 then hook else fxs.debouncehook }
    else (fxs, none)
  ({ fxs with lastrxhook := hook }, rxsig)

variable (arm : Bool) (raw : ℕ → Bool)

def after : ℕ → FxsHook
  | 0 => start
  | n + 1 => (proslicCheckHook arm (raw n) (after n)).1

def reportAt (n : ℕ) : Option RxSig := (proslicCheckHook arm (raw n) (after arm raw n)).2

def reports (n : ℕ) : List RxSig := (List.range n).filterMap (reportAt arm raw)

/-- The level that was reported last; at first the line is on the hook. -/
def reported (n : ℕ) : Bool := (reports arm raw n).getLast? = some .offhook

def previous : ℕ → Bool
  | 0 => false
  | n + 1 => raw n

def holdPolls : ℕ := 256 / (4 * asChunksize arm)

/-- The sample changes to `level` at poll `c` and stays so for `k` polls. -/
def Held (level : Bool) (c k : ℕ) : Prop := raw c ≠ previous raw c ∧ ∀ j ≤ k, raw (c + j) = level

/-! ## One poll -/

variable {arm raw} {fxs : FxsHook} {hook : Bool}

theorem check_of_ne (h : hook ≠ fxs.lastrxhook) :
    proslicCheckHook arm hook fxs = ({ fxs with debounce := 256, lastrxhook := hook }, none) := by
  simp only [proslicCheckHook, if_pos h]
  rfl

theorem check_idle (h : hook = fxs.lastrxhook) (hzero : ¬0 < fxs.debounce) :
    proslicCheckHook arm hook fxs = (fxs, none) := by
  subst h
  simp only [proslicCheckHook, ne_eq, not_true, if_false, if_neg hzero]

theorem check_counting (h : hook = fxs.lastrxhook) (hagree : fxs.debouncehook = fxs.oldrxhook)
    (hpos : 0 < fxs.debounce) (hmore : fxs.debounce ≠ 4 * asChunksize arm) :
    proslicCheckHook arm hook fxs =
      ({ fxs with debounce := fxs.debounce - 4 * asChunksize arm }, none) := by
  have hne : fxs.debounce - 4 * asChunksize arm ≠ 0 := by omega
  simp only [proslicCheckHook, if_neg (not_not_intro h), if_pos hpos, report, if_neg hne]
  cases hold : fxs.oldrxhook <;> simp [hagree, hold, h]

theorem check_last (h : hook = fxs.lastrxhook) (hlast : fxs.debounce = 4 * asChunksize arm) :
    proslicCheckHook arm hook fxs =
      ({ fxs with debounce := 0, debouncehook := hook, oldrxhook := hook },
        if hook = fxs.oldrxhook then none else some (hookReport hook)) := by
  have hpos : 0 < 4 * (asChunksize arm : ℤ) := by cases arm <;> decide
  simp only [proslicCheckHook, if_neg (not_not_intro h), hlast, if_pos hpos, report, sub_self]
  cases hold : fxs.oldrxhook <;> cases hhook : hook <;> simp_all [hookReport]

/-! ## All polls -/

def countdown (arm : Bool) (k : ℕ) : ℤ := 256 - 4 * asChunksize arm * k

theorem countdown_zero (arm : Bool) : countdown arm 0 = 256 := by simp [countdown]

theorem countdown_succ (arm : Bool) (k : ℕ) :
    countdown arm (k + 1) = countdown arm k - 4 * asChunksize arm := by
  unfold countdown
  push_cast
  ring

theorem countdown_eq_iff (arm : Bool) (k : ℕ) :
    countdown arm k = 4 * asChunksize arm ↔ k + 1 = holdPolls arm := by
  cases arm <;> simp [countdown, asChunksize, holdPolls] <;> omega

theorem countdown_pos_iff (arm : Bool) (k : ℕ) : 0 < countdown arm k ↔ k < holdPolls arm := by
  cases arm <;> simp [countdown, asChunksize, holdPolls] <;> omega

/-- The four fields between two polls. While the countdown does not run, the last sample is the
level that was reported. -/
structure Polled (arm : Bool) (raw : ℕ → Bool) (n : ℕ) (fxs : FxsHook) : Prop where
  last : fxs.lastrxhook = previous raw n
  agree : fxs.debouncehook = fxs.oldrxhook
  settled : ¬0 < fxs.debounce → fxs.lastrxhook = fxs.oldrxhook
  counting : 0 < fxs.debounce → ∃ c k, n = c + k + 1 ∧ Held raw fxs.lastrxhook c k ∧
    fxs.debounce = countdown arm k

variable {n : ℕ}

/-- One poll: it either reports nothing and keeps the reported level, or it reports the level
that was held for so long. -/
structure Poll (arm : Bool) (raw : ℕ → Bool) (n : ℕ) (fxs fxs' : FxsHook)
    (rxsig : Option RxSig) : Prop where
  polled : Polled arm raw (n + 1) fxs'
  report : rxsig = none ∧ fxs'.oldrxhook = fxs.oldrxhook ∨
    ∃ level c, rxsig = some (hookReport level) ∧ fxs.oldrxhook = !level ∧
      fxs'.oldrxhook = level ∧ c + holdPolls arm = n ∧ Held raw level c (holdPolls arm)

theorem Held.succ {level : Bool} {c k : ℕ} (h : Held raw level c k)
    (hnext : raw (c + (k + 1)) = level) : Held raw level c (k + 1) := by
  refine ⟨h.1, ?_⟩
  intro j hj
  rcases hj.eq_or_lt with rfl | hlt
  · exact hnext
  · exact h.2 j (Nat.le_of_lt_succ hlt)

theorem Polled.changed (h : Polled arm raw n fxs) (hchange : raw n ≠ fxs.lastrxhook) :
    Poll arm raw n fxs { fxs with debounce := 256, lastrxhook := raw n } none := by
  have hpos : (0 : ℤ) < 256 := by decide
  refine ⟨⟨rfl, h.agree, fun hnot => absurd hpos hnot, ?_⟩, .inl ⟨rfl, rfl⟩⟩
  intro _
  refine ⟨n, 0, rfl, ⟨h.last ▸ hchange, ?_⟩, (countdown_zero arm).symm⟩
  intro j hj
  obtain rfl := Nat.le_zero.mp hj
  rfl

theorem Polled.ends (h : Polled arm raw n fxs) (hsame : raw n = fxs.lastrxhook)
    (hpos : 0 < fxs.debounce) (hlast : fxs.debounce = 4 * asChunksize arm) :
    Poll arm raw n fxs { fxs with debounce := 0, debouncehook := raw n, oldrxhook := raw n }
      (if raw n = fxs.oldrxhook then none else some (hookReport (raw n))) := by
  obtain ⟨c, k, rfl, hheld, hcount⟩ := h.counting hpos
  have hk : k + 1 = holdPolls arm := (countdown_eq_iff arm k).mp (hcount.symm.trans hlast)
  refine ⟨⟨hsame.symm, rfl, fun _ => hsame.symm, fun h => absurd h (lt_irrefl 0)⟩, ?_⟩
  by_cases hold : raw (c + k + 1) = fxs.oldrxhook
  · exact .inl ⟨if_pos hold, hold⟩
  · refine .inr ⟨raw (c + k + 1), c, if_neg hold, Bool.eq_not_of_ne (Ne.symm hold), rfl, ?_, ?_⟩
    · rw [← hk]
      rfl
    · rw [← hk, hsame]
      exact hheld.succ hsame

theorem Polled.goes_on (h : Polled arm raw n fxs) (hsame : raw n = fxs.lastrxhook)
    (hpos : 0 < fxs.debounce) (hmore : fxs.debounce ≠ 4 * asChunksize arm) :
    Poll arm raw n fxs { fxs with debounce := fxs.debounce - 4 * asChunksize arm } none := by
  obtain ⟨c, k, rfl, hheld, hcount⟩ := h.counting hpos
  have hk : k < holdPolls arm := (countdown_pos_iff arm k).mp (hcount ▸ hpos)
  have hk' : k + 1 ≠ holdPolls arm :=
    fun hk' => hmore (hcount.trans ((countdown_eq_iff arm k).mpr hk'))
  have hleft : 0 < countdown arm (k + 1) := (countdown_pos_iff arm _).mpr (by omega)
  rw [countdown_succ, ← hcount] at hleft
  refine ⟨⟨hsame.symm, h.agree, fun hnot => absurd hleft hnot, ?_⟩, .inl ⟨rfl, rfl⟩⟩
  intro _
  refine ⟨c, k + 1, rfl, hheld.succ hsame, ?_⟩
  rw [countdown_succ, ← hcount]

theorem Polled.check (h : Polled arm raw n fxs) :
    Poll arm raw n fxs (proslicCheckHook arm (raw n) fxs).1
      (proslicCheckHook arm (raw n) fxs).2 := by
  by_cases hchange : raw n ≠ fxs.lastrxhook
  · rw [check_of_ne hchange]
    exact h.changed hchange
  have hsame : raw n = fxs.lastrxhook := not_not.mp hchange
  by_cases hpos : 0 < fxs.debounce
  · by_cases hlast : fxs.debounce = 4 * asChunksize arm
    · rw [check_last hsame hlast]
      exact h.ends hsame hpos hlast
    · rw [check_counting hsame h.agree hpos hlast]
      exact h.goes_on hsame hpos hlast
  · rw [check_idle hsame hpos]
    exact ⟨⟨hsame.symm, h.agree, h.settled, fun h => absurd h hpos⟩, .inl ⟨rfl, rfl⟩⟩

theorem polled_after (arm : Bool) (raw : ℕ → Bool) (n : ℕ) :
    Polled arm raw n (after arm raw n) := by
  induction n with
  | zero => exact ⟨rfl, rfl, fun _ => rfl, fun h => absurd h (lt_irrefl 0)⟩
  | succ n ih => exact ih.check.polled

theorem check_after (arm : Bool) (raw : ℕ → Bool) (n : ℕ) :
    Poll arm raw n (after arm raw n) (after arm raw (n + 1)) (reportAt arm raw n) :=
  (polled_after arm raw n).check

/-! ## The reports -/

def alternating (n : ℕ) : List RxSig := (List.range n).map fun i => hookReport (decide (Even i))

theorem alternating_succ (n : ℕ) :
    alternating (n + 1) = alternating n ++ [hookReport (decide (Even n))] := by
  simp [alternating, List.range_succ]

theorem reports_succ (arm : Bool) (raw : ℕ → Bool) (n : ℕ) :
    reports arm raw (n + 1) = reports arm raw n ++ (reportAt arm raw n).toList := by
  unfold reports
  rw [List.range_succ, List.filterMap_append]
  cases h : reportAt arm raw n <;> simp [h]

/-- The reports alternate, and the last one tells the level that the card has noted. -/
theorem reports_alternate (arm : Bool) (raw : ℕ → Bool) (n : ℕ) :
    ∃ m, reports arm raw n = alternating m ∧ (after arm raw n).oldrxhook = !decide (Even m) := by
  induction n with
  | zero => exact ⟨0, rfl, rfl⟩
  | succ n ih =>
      obtain ⟨m, hreports, hold⟩ := ih
      rw [reports_succ]
      rcases (check_after arm raw n).report with ⟨hnone, hkeep⟩ | ⟨level, c, hsome, hwas, his, -⟩
      · refine ⟨m, ?_, hkeep.trans hold⟩
        rw [hnone, hreports]
        exact List.append_nil _
      · have hlevel : level = decide (Even m) := by
          have hflip := hwas.symm.trans hold
          simpa using hflip
        refine ⟨m + 1, ?_, ?_⟩
        · rw [hsome, hreports, alternating_succ, hlevel]
          rfl
        · rw [his, hlevel]
          by_cases heven : Even m <;> simp [heven, Nat.even_add_one]

theorem reported_eq (arm : Bool) (raw : ℕ → Bool) (n : ℕ) :
    reported arm raw n = (after arm raw n).oldrxhook := by
  obtain ⟨m, hreports, hold⟩ := reports_alternate arm raw n
  rw [reported, hreports, hold]
  cases m with
  | zero => rfl
  | succ m =>
      rw [alternating_succ, List.getLast?_concat]
      by_cases heven : Even m <;> simp [hookReport, heven, Nat.even_add_one]

/-! ## A level that is held -/

theorem Held.mono {level : Bool} {c k k' : ℕ} (h : Held raw level c k) (hle : k' ≤ k) :
    Held raw level c k' :=
  ⟨h.1, fun j hj => h.2 j (hj.trans hle)⟩

theorem Held.last (arm : Bool) {level : Bool} {c k : ℕ} (h : Held raw level c k) :
    (after arm raw (c + k + 1)).lastrxhook = level :=
  (polled_after arm raw (c + k + 1)).last.trans (h.2 k le_rfl)

theorem Held.debounce {level : Bool} {c k : ℕ} (h : Held raw level c k)
    (hk : k < holdPolls arm) : (after arm raw (c + k + 1)).debounce = countdown arm k := by
  induction k with
  | zero =>
      have hchange : raw c ≠ (after arm raw c).lastrxhook := by
        rw [(polled_after arm raw c).last]
        exact h.1
      change (proslicCheckHook arm (raw c) (after arm raw c)).1.debounce = _
      rw [countdown_zero, check_of_ne hchange]
  | succ k ih =>
      have hprev : Held raw level c k := h.mono k.le_succ
      have hcount := ih hprev (Nat.lt_of_succ_lt hk)
      have hsame : raw (c + k + 1) = (after arm raw (c + k + 1)).lastrxhook :=
        (h.2 (k + 1) le_rfl).trans (hprev.last arm).symm
      have hpos : 0 < (after arm raw (c + k + 1)).debounce := by
        rw [hcount]
        exact (countdown_pos_iff arm k).mpr (Nat.lt_of_succ_lt hk)
      have hmore : (after arm raw (c + k + 1)).debounce ≠ 4 * asChunksize arm := by
        rw [hcount]
        exact fun hlast => hk.ne ((countdown_eq_iff arm k).mp hlast)
      change (proslicCheckHook arm (raw (c + k + 1)) (after arm raw (c + k + 1))).1.debounce = _
      rw [check_counting hsame (polled_after arm raw _).agree hpos hmore, countdown_succ, hcount]

theorem Held.reportAt {level : Bool} {c : ℕ} (h : Held raw level c (holdPolls arm))
    (hnew : level ≠ (after arm raw (c + holdPolls arm)).oldrxhook) :
    reportAt arm raw (c + holdPolls arm) = some (hookReport level) := by
  obtain ⟨k, hk⟩ : ∃ k, holdPolls arm = k + 1 := by
    cases arm
    · exact ⟨7, rfl⟩
    · exact ⟨1, rfl⟩
  have hprev : Held raw level c k := h.mono (by omega)
  have hlevel : raw (c + holdPolls arm) = level := h.2 _ le_rfl
  rw [hk] at hnew hlevel ⊢
  have hsame : raw (c + (k + 1)) = (after arm raw (c + (k + 1))).lastrxhook :=
    hlevel.trans (hprev.last arm).symm
  have hlast : (after arm raw (c + (k + 1))).debounce = 4 * asChunksize arm :=
    (hprev.debounce (by omega)).trans ((countdown_eq_iff arm k).mpr hk.symm)
  unfold FxsHook.reportAt
  rw [check_last hsame hlast, hlevel]
  exact if_neg hnew

end FxsHook

open FxsHook in
/-- The reports of the hook alternate. Each of them is made for a level that was held for the
required number of polls after it changed, and each level that is held so long and was not
reported already is reported. -/
theorem hook_debounced (arm : Bool) (raw : ℕ → Bool) :
    (∀ (n i : ℕ) (rxsig : RxSig), (reports arm raw n)[i]? = some rxsig →
        rxsig = if Even i then .offhook else .onhook) ∧
      (∀ n rxsig, reportAt arm raw n = some rxsig → ∃ level c, rxsig = hookReport level ∧
        c + holdPolls arm = n ∧ Held raw level c (holdPolls arm)) ∧
      ∀ level c, Held raw level c (holdPolls arm) →
        level ≠ reported arm raw (c + holdPolls arm) →
        reportAt arm raw (c + holdPolls arm) = some (hookReport level) := by
  refine ⟨?_, ?_, ?_⟩
  · intro n i rxsig hi
    obtain ⟨m, hreports, -⟩ := reports_alternate arm raw n
    rw [hreports, alternating, List.getElem?_map, Option.map_eq_some_iff] at hi
    obtain ⟨j, hj, rfl⟩ := hi
    obtain ⟨hlt, rfl⟩ := List.getElem?_eq_some_iff.mp hj
    rw [List.getElem_range]
    by_cases heven : Even i <;> simp [hookReport, heven]
  · intro n rxsig hrxsig
    rcases (check_after arm raw n).report with ⟨hnone, -⟩ | ⟨level, c, hsome, -, -, hn, hheld⟩
    · rw [hnone] at hrxsig
      cases hrxsig
    · exact ⟨level, c, Option.some.inj (hrxsig.symm.trans hsome), hn, hheld⟩
  · intro level c hheld hnew
    rw [reported_eq] at hnew
    exact hheld.reportAt hnew

end Slic
end WirelessMesh
