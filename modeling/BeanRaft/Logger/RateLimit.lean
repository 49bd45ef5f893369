import Mathlib.Algebra.Order.Group.Int
import Mathlib.Algebra.Order.Group.Unbundled.Abs
import Mathlib.Logic.Function.Basic
import BeanRaft.Lib.Lts
import BeanRaft.Lib.CInt

/-!
# BeanRaft.Logger.RateLimit — one call site of logEverySeconds

The macro `logEverySeconds` (`logger.hpp`, line 37) at one place of a program, executed by any number of threads.  One
action is the reading of the clock, the load, or the comparison with the exchange after it.

* A relaxed load may return any value that the atomic ever had (`stores`), and a weak exchange may fail although the
  value it expects is there.
* `emitted` is history: the clock readings of the executions that log, in the order of their exchanges.
* `Spaced`: the readings are a period apart and each exchange advances the stored one.  `spaced_iff`: this holds in
  every run exactly for a period whose microseconds fit in `int`, and a clock whose readings leave room for it.
-/

namespace BeanRaft.Logger

open Lts CInt

/-- `logUstime` (`logger.cpp`, line 56) for the time that `gettimeofday` stores. -/
def logUstime (tv_sec tv_usec : Int) : Int := int64 (int64 (tv_sec * 1000000) + tv_usec)

/-- Where an execution of the macro is. -/
inductive SitePc
  | idle
  /-- Has read the clock (line 39). -/
  | clocked (log_current : Int)
  /-- Has loaded the stored reading (line 40). -/
  | loaded (log_current log_seen : Int)
  /-- In the body, at the log (line 45). -/
  | logging
  deriving DecidableEq, Repr

structure Site where
  seconds : Int
  log_static : Int
  stores : List Int
  threads : Nat → SitePc
  emitted : List Int

inductive SiteAct
  | clock (t : Nat) (tv_sec tv_usec : Int)
  /-- The load returns the `i`-th value of the atomic. -/
  | load (t i : Nat)
  | exchange (t : Nat) (spurious : Bool)
  | log (t : Nat)
  deriving DecidableEq, Repr

namespace Site

variable (s : Site)

def setThread (t : Nat) (pc : SitePc) : Site := { s with threads := Function.update s.threads t pc }

/-- `log_seen + seconds * 1000000` (line 41): the product is an `int`, the sum a `long long`. -/
def deadline (log_seen : Int) : Int := int64 (log_seen + int32 (s.seconds * 1000000))

/-- Lines 41-44: the exchange is not reached before the deadline. -/
def exchange (t : Nat) (log_current log_seen : Int) (spurious : Bool) : Site :=
  if log_current ≥ s.deadline log_seen ∧ spurious = false ∧ s.log_static = log_seen then
    { s.setThread t .logging with
      log_static := log_current
      stores := s.stores ++ [log_current]
      emitted := s.emitted ++ [log_current] }
  else s.setThread t .idle

/-- The transition function; `none` when the thread is elsewhere. -/
def step : SiteAct → Option Site
  | .clock t tv_sec tv_usec =>
    match s.threads t with
    | .idle => some (s.setThread t (.clocked (logUstime tv_sec tv_usec)))
    | _ => none
  | .load t i =>
    match s.threads t with
    | .clocked log_current => s.stores[i]?.map fun log_seen => s.setThread t (.loaded log_current log_seen)
    | _ => none
  | .exchange t spurious =>
    match s.threads t with
    | .loaded log_current log_seen => some (s.exchange t log_current log_seen spurious)
    | _ => none
  | .log t =>
    match s.threads t with
    | .logging => some (s.setThread t .idle)
    | _ => none

/-- A call site that was not executed yet. -/
def new (seconds : Int) : Site := ⟨seconds, 0, [0], fun _ => .idle, []⟩

end Site

/-- A call site as a transition system. -/
def site : System Site SiteAct where
  init s := ∃ seconds, s = .new seconds
  step := Site.step

/-! ## The property -/

/-- The microseconds of the period, as a number. -/
def Site.period (s : Site) : Int := s.seconds * 1000000

structure Spaced (s : Site) : Prop where
  apart : s.emitted.Pairwise fun a b => s.period ≤ |a - b|
  advances : s.stores.Pairwise (· < ·)

/-- The reading that an action takes is not above `m`. -/
def ReadsUpTo (m : Int) : SiteAct → Prop
  | .clock _ tv_sec tv_usec => logUstime tv_sec tv_usec ≤ m
  | _ => True

/-! ## Enough room for the period -/

section Room

variable {s s' : Site} {m : Int} {t : Nat}

/-- The period fits in `int`, and it can be added to every reading up to `m`. -/
def Room (seconds m : Int) : Prop := seconds ≤ 2147 ∧ m + seconds * 1000000 ≤ LLONG_MAX

/-- The values of the atomic are a period apart, and the threads hold readings and values of it. -/
structure Tracked (m : Int) (s : Site) : Prop where
  pos : 0 < s.seconds
  room : Room s.seconds m
  stores : s.stores = 0 :: s.emitted
  last : s.stores.getLast? = some s.log_static
  spaced : s.stores.Pairwise fun a b => a + s.period ≤ b
  below : ∀ a ∈ s.stores, a ≤ m
  clocked : ∀ t c, s.threads t = .clocked c → c ≤ m
  loaded : ∀ t c v, s.threads t = .loaded c v → c ≤ m ∧ v ∈ s.stores

theorem Tracked.nonneg (h : Tracked m s) : ∀ a ∈ s.stores, 0 ≤ a := by
  have hp := h.pos
  have hs := h.spaced
  rw [h.stores] at hs ⊢
  intro a ha
  rcases List.mem_cons.mp ha with rfl | ha
  · exact Int.le_refl 0
  · have := List.rel_of_pairwise_cons hs ha
    unfold Site.period at this
    omega

/-- No value is larger than the stored one. -/
theorem Tracked.le_static (h : Tracked m s) : ∀ a ∈ s.stores, a ≤ s.log_static := by
  have hp := h.pos
  have hs := h.spaced
  obtain ⟨l, hl⟩ := List.getLast?_eq_some_iff.mp h.last
  rw [hl] at hs ⊢
  intro a ha
  rcases List.mem_append.mp ha with ha | ha
  · have := (List.pairwise_append.mp hs).2.2 a ha s.log_static (List.mem_singleton.mpr rfl)
    unfold Site.period at this
    omega
  · rw [List.mem_singleton.mp ha]

/-- Nothing overflows in the deadline of a value that was stored. -/
theorem Tracked.deadline (h : Tracked m s) {v : Int} (hv : v ∈ s.stores) : s.deadline v = v + s.period := by
  have hp := h.pos
  obtain ⟨hr1, hr2⟩ := h.room
  have h0 := h.nonneg v hv
  have hm := h.below v hv
  unfold LLONG_MAX at hr2
  unfold Site.deadline Site.period
  rw [int32_of_range (by omega) (by omega), int64_of_range (by omega) (by omega)]

theorem spaced_of_tracked (h : Tracked m s) : Spaced s := by
  have hp := h.pos
  refine ⟨?_, h.spaced.imp fun {a b} hab => ?_⟩
  · have hs := h.spaced
    rw [h.stores] at hs
    refine hs.of_cons.imp fun {a b} hab => ?_
    rw [abs_sub_comm]
    exact le_trans (by omega) (le_abs_self _)
  · unfold Site.period at hab
    omega

@[simp] theorem setThread_self (s : Site) (t : Nat) (pc : SitePc) : (s.setThread t pc).threads t = pc := by
  simp [Site.setThread]

@[simp] theorem setThread_of_ne {t' : Nat} (ht : t' ≠ t) (pc : SitePc) : (s.setThread t pc).threads t' = s.threads t' := by
  simp [Site.setThread, ht]

/-- A thread moves on and nothing is stored. -/
theorem Tracked.move (h : Tracked m s) {pc : SitePc} (hc : ∀ c, pc = .clocked c → c ≤ m)
    (hl : ∀ c v, pc = .loaded c v → c ≤ m ∧ v ∈ s.stores) : Tracked m (s.setThread t pc) := by
  refine ⟨h.pos, h.room, h.stores, h.last, h.spaced, h.below, fun t' c hpc => ?_, fun t' c v hpc => ?_⟩
  · by_cases ht : t' = t
    · rw [ht, setThread_self] at hpc
      exact hc c hpc
    · rw [setThread_of_ne ht] at hpc
      exact h.clocked t' c hpc
  · by_cases ht : t' = t
    · rw [ht, setThread_self] at hpc
      exact hl c v hpc
    · rw [setThread_of_ne ht] at hpc
      exact h.loaded t' c v hpc

theorem Tracked.idle (h : Tracked m s) {pc : SitePc} (hpc : pc = .idle ∨ pc = .logging) :
    Tracked m (s.setThread t pc) := by
  rcases hpc with rfl | rfl <;> exact h.move (fun c hc => by simp at hc) fun c v hl => by simp at hl

/-- The exchange stores a reading that is past the deadline of the stored one. -/
theorem tracked_exchange (h : Tracked m s) {c v : Int} {spurious : Bool} (hpc : s.threads t = .loaded c v) :
    Tracked m (s.exchange t c v spurious) := by
  obtain ⟨hcm, hv⟩ := h.loaded t c v hpc
  unfold Site.exchange
  split_ifs with hx
  · obtain ⟨hdue, -, hstatic⟩ := hx
    rw [h.deadline hv] at hdue
    have hle := h.le_static
    have hmove := h.idle (t := t) (.inr rfl : SitePc.logging = .idle ∨ SitePc.logging = .logging)
    refine ⟨h.pos, h.room, ?_, ?_, ?_, ?_, hmove.clocked, fun t' c' v' hl => ?_⟩
    · show s.stores ++ [c] = 0 :: (s.emitted ++ [c])
      rw [h.stores]
      rfl
    · exact List.getLast?_concat
    · refine List.pairwise_append.mpr ⟨h.spaced, List.pairwise_singleton _ _, fun a ha b hb => ?_⟩
      have hav := hle a ha
      rw [List.mem_singleton.mp hb]
      show a + s.period ≤ c
      omega
    · intro a ha
      rcases List.mem_append.mp ha with ha | ha
      · exact h.below a ha
      · rw [List.mem_singleton.mp ha]
        exact hcm
    · obtain ⟨h1, h2⟩ := hmove.loaded t' c' v' hl
      exact ⟨h1, List.mem_append_left _ h2⟩
  · exact h.idle (.inl rfl)

theorem tracked_step {a : SiteAct} (h : Tracked m s) (hok : ReadsUpTo m a) (hs : s.step a = some s') :
    Tracked m s' := by
  cases a with
  | clock t tv_sec tv_usec =>
    simp only [Site.step] at hs
    split at hs
    · rw [← Option.some.inj hs]
      refine h.move (fun c hc => ?_) fun c v hl => by simp at hl
      rw [← SitePc.clocked.inj hc]
      exact hok
    · simp at hs
  | load t i =>
    simp only [Site.step] at hs
    split at hs
    · rename_i c hpc
      obtain ⟨v, hv, rfl⟩ := Option.map_eq_some_iff.mp hs
      refine h.move (fun c hc => by simp at hc) fun c' v' hl => ?_
      obtain ⟨rfl, rfl⟩ := SitePc.loaded.inj hl
      exact ⟨h.clocked t _ hpc, List.mem_of_getElem? hv⟩
    · simp at hs
  | exchange t spurious =>
    simp only [Site.step] at hs
    split at hs
    · rename_i c v hpc
      rw [← Option.some.inj hs]
      exact tracked_exchange h hpc
    · simp at hs
  | log t =>
    simp only [Site.step] at hs
    split at hs
    · rw [← Option.some.inj hs]
      exact h.idle (.inl rfl)
    · simp at hs

theorem tracked_new {seconds : Int} (hpos : 0 < seconds) (hroom : Room seconds m) (hm : 0 ≤ m) :
    Tracked m (.new seconds) where
  pos := hpos
  room := hroom
  stores := rfl
  last := rfl
  spaced := List.pairwise_singleton _ _
  below a ha := by
    rw [List.mem_singleton.mp ha]
    exact hm
  clocked t c hpc := by simp [Site.new] at hpc
  loaded t c v hpc := by simp [Site.new] at hpc

end Room

/-! ## Executions after one another -/

section Executions

variable {s : Site} {seconds m r r1 r2 : Int} {t i : Nat}

/-- A time of day with the reading `r`. -/
theorem logUstime_split (h0 : 0 ≤ r) (h1 : r ≤ LLONG_MAX) : logUstime (r / 1000000) (r % 1000000) = r := by
  unfold LLONG_MAX at h1
  unfold logUstime
  rw [int64_of_range (x := r / 1000000 * 1000000) (by omega) (by omega), int64_of_range (by omega) (by omega)]
  omega

/-- An execution at the reading `r`, which loads the `i`-th value. -/
def once (t i : Nat) (r : Int) : List SiteAct :=
  [.clock t (r / 1000000) (r % 1000000), .load t i, .exchange t false, .log t]

/-- It logs when it loads the current value and is past its deadline. -/
theorem once_exec (h0 : 0 ≤ r) (h1 : r ≤ LLONG_MAX) (hpc : s.threads t = .idle)
    (hv : s.stores[i]? = some s.log_static) (hd : s.deadline s.log_static ≤ r) :
    site.exec s (once t i r) =
      some { s with log_static := r, stores := s.stores ++ [r], emitted := s.emitted ++ [r] } := by
  have hidle : Function.update s.threads t .idle = s.threads := by rw [← hpc, Function.update_eq_self]
  have hclock : site.step s (.clock t (r / 1000000) (r % 1000000)) = some (s.setThread t (.clocked r)) := by
    simp only [site, Site.step, hpc, logUstime_split h0 h1]
  have hload : site.step (s.setThread t (.clocked r)) (.load t i) = some (s.setThread t (.loaded r s.log_static)) := by
    simp [site, Site.step, Site.setThread, hv]
  have hexchange : site.step (s.setThread t (.loaded r s.log_static)) (.exchange t false) =
      some (s.exchange t r s.log_static false) := by
    simp [site, Site.step, Site.exchange, Site.setThread, Site.deadline]
  have hlog : site.step (s.exchange t r s.log_static false) (.log t) =
      some { s with log_static := r, stores := s.stores ++ [r], emitted := s.emitted ++ [r] } := by
    unfold Site.exchange
    rw [if_pos ⟨hd, rfl, rfl⟩]
    simp [site, Site.step, Site.setThread, hidle]
  unfold once
  rw [exec_cons, hclock, Option.bind_some, exec_cons, hload, Option.bind_some, exec_cons, hexchange, Option.bind_some,
    exec_cons, hlog]
  rfl

/-- Its reading is the only one. -/
theorem once_reads (h0 : 0 ≤ r) (h1 : r ≤ LLONG_MAX) (hm : r ≤ m) : ∀ a ∈ once t i r, ReadsUpTo m a := by
  intro a ha
  simp only [once, List.mem_cons, List.not_mem_nil, or_false] at ha
  rcases ha with rfl | rfl | rfl | rfl
  · exact le_of_eq_of_le (logUstime_split h0 h1) hm
  · trivial
  · trivial
  · trivial

/-- One thread executes the macro at the readings `r1` and `r2`. -/
def twice (r1 r2 : Int) : List SiteAct := once 0 0 r1 ++ once 0 1 r2

theorem twice_reads (h1 : 0 ≤ r1 ∧ r1 ≤ LLONG_MAX) (h2 : 0 ≤ r2 ∧ r2 ≤ LLONG_MAX) (hm1 : r1 ≤ m) (hm2 : r2 ≤ m) :
    ∀ a ∈ twice r1 r2, ReadsUpTo m a :=
  List.forall_mem_append.mpr ⟨once_reads h1.1 h1.2 hm1, once_reads h2.1 h2.2 hm2⟩

/-- Both executions log when neither is before its deadline. -/
theorem not_always_twice (h1 : 0 ≤ r1 ∧ r1 ≤ LLONG_MAX) (h2 : 0 ≤ r2 ∧ r2 ≤ LLONG_MAX)
    (hd1 : (Site.new seconds).deadline 0 ≤ r1) (hd2 : (Site.new seconds).deadline r1 ≤ r2)
    (hclose : |r1 - r2| < seconds * 1000000) : ¬ Always site Spaced (.new seconds) (twice r1 r2) := by
  intro h
  have he1 := once_exec (s := .new seconds) (t := 0) (i := 0) h1.1 h1.2 rfl rfl hd1
  have he2 := once_exec (s := { Site.new seconds with log_static := r1, stores := [0, r1], emitted := [r1] })
    (t := 0) (i := 1) h2.1 h2.2 rfl rfl hd2
  have hrun : site.exec (.new seconds) (twice r1 r2) =
      some { Site.new seconds with log_static := r2, stores := [0, r1, r2], emitted := [r1, r2] } := by
    unfold twice
    rw [exec_append, he1]
    exact he2
  have hpair := (h.exec hrun).apart
  have hle : seconds * 1000000 ≤ |r1 - r2| := by
    refine List.rel_of_pairwise_cons hpair ?_
    exact List.mem_singleton.mpr rfl
  exact absurd hclose (not_lt.mpr hle)

/-- A period that wraps: the executions are less than the period apart. -/
theorem close_of_wrap (hbig : 2147 < seconds) (hmax : seconds ≤ INT_MAX) (hm : 2 ^ 32 ≤ m) (hm' : m ≤ LLONG_MAX) :
    ∃ acts, (∀ a ∈ acts, ReadsUpTo m a) ∧ ¬ Always site Spaced (.new seconds) acts := by
  obtain ⟨hp1, hp2⟩ := int32_range (seconds * 1000000)
  unfold INT_MAX at hmax
  unfold LLONG_MAX at hm'
  -- the second reading is the deadline of the first, or the first again
  have hr1 : (0 : Int) ≤ 2 ^ 31 ∧ (2 : Int) ^ 31 ≤ LLONG_MAX := by decide
  have hr2 : 0 ≤ 2 ^ 31 + max 0 (int32 (seconds * 1000000)) ∧
      2 ^ 31 + max 0 (int32 (seconds * 1000000)) ≤ LLONG_MAX := by
    unfold LLONG_MAX
    omega
  refine ⟨twice (2 ^ 31) (2 ^ 31 + max 0 (int32 (seconds * 1000000))),
    twice_reads hr1 hr2 (by omega) (by omega), not_always_twice hr1 hr2 ?_ ?_ ?_⟩
  · show int64 (0 + int32 (seconds * 1000000)) ≤ 2 ^ 31
    rw [int64_of_range (by omega) (by omega)]
    omega
  · show int64 (2 ^ 31 + int32 (seconds * 1000000)) ≤ _
    rw [int64_of_range (by omega) (by omega)]
    omega
  · rw [abs_lt]
    omega

/-- A clock that gets so far that a deadline wraps: two executions at one reading. -/
theorem close_of_end (hpos : 0 < seconds) (hsmall : seconds ≤ 2147) (hm : 2 ^ 32 ≤ m) (hm' : m ≤ LLONG_MAX)
    (hover : LLONG_MAX < m + seconds * 1000000) :
    ∃ acts, (∀ a ∈ acts, ReadsUpTo m a) ∧ ¬ Always site Spaced (.new seconds) acts := by
  have hr : 0 ≤ m ∧ m ≤ LLONG_MAX := ⟨by omega, hm'⟩
  unfold LLONG_MAX at hm' hover
  have hp : int32 (seconds * 1000000) = seconds * 1000000 := int32_of_range (by omega) (by omega)
  refine ⟨twice m m, twice_reads hr hr (le_refl m) (le_refl m), not_always_twice hr hr ?_ ?_ ?_⟩
  · show int64 (0 + int32 (seconds * 1000000)) ≤ m
    rw [hp, int64_of_range (by omega) (by omega)]
    omega
  · show int64 (m + int32 (seconds * 1000000)) ≤ m
    rw [hp]
    simp only [int64, Int.bmod]
    split <;> omega
  · rw [sub_self, abs_zero]
    omega

end Executions

/-- **When the logs of a call site are spaced**: in every run of any number of threads with readings up to `m`, if and
only if the period fits in `int` and can be added to each reading. -/
theorem spaced_iff (seconds m : Int) (hpos : 0 < seconds) (hmax : seconds ≤ INT_MAX) (hm : 2 ^ 32 ≤ m)
    (hm' : m ≤ LLONG_MAX) :
    (∀ acts, (∀ a ∈ acts, ReadsUpTo m a) → Always site Spaced (.new seconds) acts) ↔ Room seconds m := by
  constructor
  · intro h
    by_contra hno
    have hbad : ∃ acts, (∀ a ∈ acts, ReadsUpTo m a) ∧ ¬ Always site Spaced (.new seconds) acts := by
      by_cases hbig : 2147 < seconds
      · exact close_of_wrap hbig hmax hm hm'
      · unfold Room at hno
        exact close_of_end hpos (by omega) hm hm' (by omega)
    obtain ⟨acts, hreads, hacts⟩ := hbad
    exact hacts (h acts hreads)
  · intro hroom acts hreads
    have hok : StepsOk site (fun _ a => ReadsUpTo m a) (.new seconds) acts := stepsOk_of_forall hreads _
    exact always_of_stepsOk (I := Tracked m) (fun s h => spaced_of_tracked h)
      (fun s a s' h ha hs => tracked_step h ha hs) (tracked_new hpos hroom (by omega)) hok

theorem spaced_iff_minute : (∀ acts, (∀ a ∈ acts, ReadsUpTo (2 ^ 62) a) → Always site Spaced (.new 60) acts) ↔
    Room 60 (2 ^ 62) :=
  spaced_iff 60 (2 ^ 62) (by decide) (by decide) (by decide) (by decide)

/-- A period of an hour, and two executions within a microsecond. -/
theorem everyHour_twice : ¬ Always site Spaced (.new 3600) (twice 1700000000000000 1700000000000001) :=
  not_always_twice (by decide) (by decide) (by decide) (by decide) (by decide)

end BeanRaft.Logger
