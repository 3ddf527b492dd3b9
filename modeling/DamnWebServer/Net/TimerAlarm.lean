import DamnWebServer.Net.TimerRuns

/-!
# The alarm of the timer queue

The queue sleeps until its timerfd becomes readable, so a pending timer runs
only if somebody has armed the timerfd for it. Here the runs of the queue are
put beside the kernel's timerfd and a clock. `insert` arms it when the new timer
is the earliest, `reset` arms it again unless the next expiration is not
`valid()`, and reading consumes an expiration that has passed; the invariant is
that nothing is left waiting without an alarm.
-/

namespace DamnWebServer

/-- The whole value in nanoseconds. -/
def Timespec.nanoseconds (v : Timespec) : Int := v.tvSec * 10 ^ 9 + v.tvNsec

/-- The values that `timerfd_settime` takes for an arming: no error, and not the
    zero that disarms. -/
def Timespec.Arms (v : Timespec) : Prop :=
  v ≠ ⟨0, 0⟩ ∧ 0 ≤ v.tvNsec ∧ v.tvNsec < 10 ^ 9 ∧ 0 ≤ v.tvSec

instance (v : Timespec) : Decidable v.Arms := inferInstanceAs (Decidable (_ ∧ _))

/-- The kernel's timerfd, without an interval. -/
structure Timerfd where
  /-- The next expiration, or the last one while it has not been read, in
      nanoseconds. -/
  deadline : Option Int
  /-- The time of the last arming. -/
  lastArming : Timestamp
  deriving DecidableEq, Repr

namespace Timerfd

/-- It has expired and has not been read since. -/
def Fired (fd : Timerfd) (clock : Timestamp) : Prop := ∃ d, fd.deadline = some d ∧ d ≤ clock * 1000

/-- It will expire. -/
def ArmedAt (fd : Timerfd) (clock : Timestamp) (d : Int) : Prop :=
  fd.deadline = some d ∧ clock * 1000 < d

/-- A system call on it. A read before the deadline fails with `EAGAIN`, and an
    invalid value with `EINVAL`; the value zero disarms. -/
def handle (clock : Timestamp) (fd : Timerfd) : TimerfdCall → Timerfd
  | .read => if fd.deadline.any (· ≤ clock * 1000) then { fd with deadline := none } else fd
  | .settime clock v =>
    if v.Arms then ⟨some (clock * 1000 + v.nanoseconds), clock⟩
    else if v = ⟨0, 0⟩ then { fd with deadline := none }
    else fd

end Timerfd

/-- `how_much_time_from_now` is a valid value, and the alarm comes at the
    expiration or after 100 microseconds, whichever is later. -/
theorem howMuchTimeFromNow_arms (when now : Int) :
    (howMuchTimeFromNow when now).Arms ∧
      now * 1000 + (howMuchTimeFromNow when now).nanoseconds = max when (now + 100) * 1000 := by
  obtain ⟨m, hm, hval, hmax⟩ : ∃ m : Int, 100 ≤ m ∧
      howMuchTimeFromNow when now = ⟨m / 1000000, m % 1000000 * 1000⟩ ∧
      max when (now + 100) = now + m := by
    by_cases hsoon : when - now < 100
    · refine ⟨100, le_refl 100, ?_, max_eq_right (by omega)⟩
      simp [howMuchTimeFromNow, kMicrosecondsPerSecond, hsoon]
    · refine ⟨when - now, by omega, ?_, by rw [max_eq_left (by omega)]; ring⟩
      simp only [howMuchTimeFromNow, kMicrosecondsPerSecond, if_neg hsoon]
      rw [Int.tdiv_eq_ediv_of_nonneg (by omega), Int.tmod_eq_emod_of_nonneg (by omega)]
      rfl
  rw [hval, hmax]
  simp only [Timespec.Arms, Timespec.nanoseconds, ne_eq, Timespec.mk.injEq]
  constructor <;> omega

namespace TimerState

variable {s t : TimerState}

/-- The system calls of a step. -/
def asked (s : TimerState) (l : TimerStep) (t : TimerState) : List TimerfdCall :=
  match l with
  | .addTimer _ tm clock => s.queue.armingFor tm.expiration clock
  | .cancel _ | .runNext => []
  | .beginRead _ => [.read]
  | .endRead clock => t.queue.rearming clock

theorem step_timerfd (h : Sound s) {l : TimerStep} (hstep : system.step s l t) :
    t.queue.timerfd = s.queue.timerfd ++ asked s l t := by
  obtain ⟨hl, hnext⟩ := hstep
  cases l with
  | addTimer a tm clock =>
    obtain ⟨_, _, hbound, hfree, _, _, _⟩ := hl
    obtain ⟨ts, as, hok, _⟩ := TimerQueue.addTimerInLoop_spec
      (h.rep.store_new (t := tm) hfree hbound) (Function.update_self a _ _) clock
    simp only [next, hok, bind, Except.bind] at hnext
    cases hnext
    rfl
  | cancel id =>
    by_cases hfound : ∃ tm, s.queue.heap id.timer = some tm ∧ id.timer ∉ s.out ∧
        tm.sequence = id.sequence
    · obtain ⟨tm, hlive, hout, hseq⟩ := hfound
      obtain ⟨ts, as, hok, _⟩ := TimerQueue.cancelInLoop_found h.rep hlive hout hseq
      simp only [next, hok, bind, Except.bind] at hnext
      cases hnext
      exact (List.append_nil _).symm
    · have hok := TimerQueue.cancelInLoop_unknown h.rep id fun tm hlive hout hseq =>
        hfound ⟨tm, hlive, hout, hseq⟩
      simp only [next, hok, bind, Except.bind] at hnext
      cases hnext
      exact (List.append_nil _).symm
  | beginRead now =>
    have hrep := h.rep
    have hidle : s.batch = none := hl
    rw [out, hidle] at hrep
    obtain ⟨q, hok, _, _, _, _, _, hfd⟩ := TimerQueue.beginRead_spec hrep now
    simp only [next, hok, bind, Except.bind] at hnext
    cases hnext
    exact hfd
  | runNext =>
    obtain ⟨heff, _⟩ := step_spec h ⟨hl, hnext⟩
    cases heff
    exact (List.append_nil _).symm
  | endRead clock =>
    obtain ⟨b, hbatch, _⟩ := hl
    have hrep := h.holding.rep
    rw [out, hbatch] at hrep
    obtain ⟨q, hok, _, _, _, _, hfd⟩ := TimerQueue.endRead_spec b.now clock hrep h.ledger
    simp only [next, hbatch, hok, bind, Except.bind] at hnext
    cases hnext
    exact hfd

end TimerState

/-- The queue, its timerfd and the clock. -/
structure AlarmState where
  timers : TimerState
  timerfd : Timerfd
  clock : Timestamp

inductive AlarmStep where
  /-- Time passes. -/
  | elapse (clock : Timestamp)
  /-- A step of the loop thread. -/
  | step (l : TimerStep)

namespace AlarmState

/-- The clock values in a step are those of the moment. `handle_read` takes its
    `now` before it reads the timerfd. -/
def AtClock (clock : Timestamp) : TimerStep → Prop
  | .addTimer _ _ c | .endRead c => c = clock
  | .beginRead now => 0 < now ∧ now ≤ clock
  | .cancel _ | .runNext => True

instance (clock : Timestamp) (l : TimerStep) : Decidable (AtClock clock l) :=
  match l with
  | .addTimer _ _ c | .endRead c => inferInstanceAs (Decidable (c = clock))
  | .beginRead now => inferInstanceAs (Decidable (0 < now ∧ now ≤ clock))
  | .cancel _ | .runNext => inferInstanceAs (Decidable True)

/-- The kernel serves the system calls that the step added to the log. -/
def serve (w : AlarmState) (t : TimerState) : AlarmState where
  timers := t
  timerfd := (t.queue.timerfd.drop w.timers.queue.timerfd.length).foldl
    (Timerfd.handle w.clock) w.timerfd
  clock := w.clock

def Enabled (w : AlarmState) : AlarmStep → Prop
  | .elapse clock => w.clock ≤ clock
  | .step l => AtClock w.clock l ∧ w.timers.Enabled l

instance (w : AlarmState) (l : AlarmStep) : Decidable (w.Enabled l) :=
  match l with
  | .elapse clock => inferInstanceAs (Decidable (w.clock ≤ clock))
  | .step l => inferInstanceAs (Decidable (AtClock w.clock l ∧ w.timers.Enabled l))

def next (w : AlarmState) : AlarmStep → Except Fault AlarmState
  | .elapse clock => .ok { w with clock := clock }
  | .step l => do
    let t ← w.timers.next l
    return w.serve t

/-- A new queue: nothing is armed, and the clock is positive. -/
def system : Transition.System AlarmState AlarmStep where
  init w := w.timers = .new ∧ w.timerfd.deadline = none ∧ 0 < w.clock
  step w l w' := w.Enabled l ∧ w.next l = .ok w'

/-- The state after some steps, if they are enabled and return. -/
def after (w : AlarmState) (tr : List AlarmStep) : Option AlarmState :=
  Transition.System.follow Enabled (fun w l => (w.next l).toOption) w tr

theorem run_of_after {w w' : AlarmState} {tr : List AlarmStep} (h : w.after tr = some w') :
    system.Run w tr w' := by
  refine .of_follow ?_ h
  intro w l w' hl hnext
  exact ⟨hl, eq_ok_of_toOption hnext⟩

/-- A deadline that is late for no waiting timer: not after its expiration, or
    not more than 100 microseconds after the last arming. -/
def Timely (fd : Timerfd) (timers : OrderedSet Entry) : Prop :=
  ∃ d, fd.deadline = some d ∧ ∀ e ∈ timers, d ≤ max e.when (fd.lastArming + 100) * 1000

/-- The timers that need no alarm yet: `reset` will still look at them, and they
    are later than the `now` of the running `handle_read`, so valid. -/
def Excused (w : AlarmState) (e : Entry) : Prop :=
  ∃ b, w.timers.batch = some b ∧ b.now < e.when

/-- No timer waits without an alarm. -/
def Alarmed (w : AlarmState) : Prop :=
  (∀ e ∈ w.timers.queue.timers, w.Excused e) ∨ Timely w.timerfd w.timers.queue.timers

/-- What a run keeps. -/
structure Watched (w : AlarmState) : Prop where
  sound : w.timers.Sound
  clock : 0 < w.clock
  now : ∀ b, w.timers.batch = some b → 0 < b.now
  alarm : w.Alarmed
  values : ∀ c v, .settime c v ∈ w.timers.queue.timerfd → v.Arms

variable {w : AlarmState}

theorem Timely.mono {fd : Timerfd} {timers timers' : OrderedSet Entry} (h : Timely fd timers)
    (hle : ∀ e ∈ timers', ∃ f ∈ timers, f.when ≤ e.when) : Timely fd timers' := by
  obtain ⟨d, hd, hlate⟩ := h
  refine ⟨d, hd, ?_⟩
  intro e he
  obtain ⟨f, hf, hwhen⟩ := hle e he
  have hmax := max_le_max_right (fd.lastArming + 100) hwhen
  exact (hlate f hf).trans (Int.mul_le_mul_of_nonneg_right hmax (by decide))

/-- Arming for an expiration that none comes before. -/
theorem timely_settime {clock when : Timestamp} (fd : Timerfd) {timers : OrderedSet Entry}
    (hfirst : ∀ e ∈ timers, when ≤ e.when) :
    Timely (fd.handle clock (.settime clock (howMuchTimeFromNow when clock))) timers := by
  obtain ⟨harms, hns⟩ := howMuchTimeFromNow_arms when clock
  have hfd : fd.handle clock (.settime clock (howMuchTimeFromNow when clock)) =
      ⟨some (clock * 1000 + (howMuchTimeFromNow when clock).nanoseconds), clock⟩ := if_pos harms
  rw [hfd]
  refine ⟨_, rfl, ?_⟩
  intro e he
  have hmax := max_le_max_right (clock + 100) (hfirst e he)
  rw [hns]
  exact Int.mul_le_mul_of_nonneg_right hmax (by decide)

/-- The timerfd after a step of the loop thread. -/
theorem serve_timerfd (h : w.timers.Sound) {l : TimerStep} {t : TimerState}
    (hstep : TimerState.system.step w.timers l t) :
    (w.serve t).timerfd = (TimerState.asked w.timers l t).foldl (Timerfd.handle w.clock)
      w.timerfd := by
  rw [serve, TimerState.step_timerfd h hstep, List.drop_left]

theorem values_step (h : w.timers.Sound)
    (hvalues : ∀ c v, .settime c v ∈ w.timers.queue.timerfd → v.Arms) {l : TimerStep}
    {t : TimerState} (hstep : TimerState.system.step w.timers l t) :
    ∀ c v, .settime c v ∈ t.queue.timerfd → v.Arms := by
  intro c v hmem
  rw [TimerState.step_timerfd h hstep, List.mem_append] at hmem
  rcases hmem with hold | hnew
  · exact hvalues c v hold
  · -- every new call is `how_much_time_from_now` of something
    suffices hval : ∃ when now, v = howMuchTimeFromNow when now by
      obtain ⟨when, now, rfl⟩ := hval
      exact (howMuchTimeFromNow_arms when now).1
    cases l with
    | addTimer a tm clock =>
      simp only [TimerState.asked, TimerQueue.armingFor] at hnew
      split at hnew
      · simp only [List.mem_singleton, TimerfdCall.settime.injEq] at hnew
        exact ⟨_, _, hnew.2⟩
      · simp at hnew
    | cancel id => simp [TimerState.asked] at hnew
    | beginRead now => simp [TimerState.asked] at hnew
    | runNext => simp [TimerState.asked] at hnew
    | endRead clock =>
      simp only [TimerState.asked, TimerQueue.rearming] at hnew
      split at hnew
      · simp at hnew
      · split at hnew
        · simp only [List.mem_singleton, TimerfdCall.settime.injEq] at hnew
          exact ⟨_, _, hnew.2⟩
        · simp at hnew

-- ════════════════════════════════════════════════════════════════════════
-- The alarm, step by step
-- ════════════════════════════════════════════════════════════════════════

theorem earliest_iff {q : TimerQueue} {when : Timestamp} :
    q.earliest when = true ↔ ∀ e ∈ q.timers, when < e.when := by
  rw [TimerQueue.earliest, Option.all_eq_true]
  constructor
  · intro h e he
    cases hfirst : q.timers.first with
    | none => exact absurd he (OrderedSet.first_eq_none.mp hfirst e)
    | some f =>
      have hlt := of_decide_eq_true (h f hfirst)
      exact lt_of_lt_of_le hlt (Entry.when_le (OrderedSet.first_le hfirst he))
  · intro h e he
    exact decide_eq_true (h e (OrderedSet.first_mem he))

/-- The old alarm still serves, if no entry comes before the old ones. -/
theorem Alarmed.keep (h : w.Alarmed) {w' : AlarmState} (hfd : w'.timerfd = w.timerfd)
    (hbatch : ∀ b, w.timers.batch = some b → ∃ b', w'.timers.batch = some b' ∧ b'.now = b.now)
    (hle : ∀ e ∈ w'.timers.queue.timers, ∃ f ∈ w.timers.queue.timers, f.when ≤ e.when) :
    w'.Alarmed := by
  rcases h with hexc | htimely
  · left
    intro e he
    obtain ⟨f, hf, hwhen⟩ := hle e he
    obtain ⟨b, hb, hlt⟩ := hexc f hf
    obtain ⟨b', hb', hnow⟩ := hbatch b hb
    exact ⟨b', hb', by rw [hnow]; exact lt_of_lt_of_le hlt hwhen⟩
  · right
    rw [hfd]
    exact htimely.mono hle

theorem Watched.addTimer (h : Watched w) {a : Nat} {tm : Timer} {t : TimerState}
    (hheap : t.queue.heap = Function.update w.timers.queue.heap a (some tm))
    (hrep : t.queue.Rep w.timers.out) (hbatch : t.batch = w.timers.batch)
    (hfd : (w.serve t).timerfd = (w.timers.queue.armingFor tm.expiration w.clock).foldl
      (Timerfd.handle w.clock) w.timerfd) :
    (w.serve t).Alarmed := by
  -- the entries are the old ones and the new one
  have hold : ∀ e ∈ t.queue.timers, e.when = tm.expiration ∨ e ∈ w.timers.queue.timers := by
    intro e he
    obtain ⟨u, hu, hout, hwhen⟩ := (hrep.timers e).mp he
    by_cases hea : e.timer = a
    · rw [hheap, hea, Function.update_self] at hu
      cases hu
      exact Or.inl hwhen.symm
    · rw [hheap, TimerQueue.heap_update_of_ne hea] at hu
      exact Or.inr ((h.sound.rep.timers e).mpr ⟨u, hu, hout, hwhen⟩)
  by_cases hfirst : w.timers.queue.earliest tm.expiration = true
  · right
    rw [hfd, TimerQueue.armingFor, if_pos hfirst]
    apply timely_settime
    intro e he
    rcases hold e he with hwhen | hmem
    · exact le_of_eq hwhen.symm
    · exact le_of_lt (earliest_iff.mp hfirst e hmem)
  · -- some entry is not later than the new one, and the alarm for it serves both
    rw [TimerQueue.armingFor, if_neg hfirst] at hfd
    obtain ⟨f, hf, hle⟩ : ∃ f ∈ w.timers.queue.timers, f.when ≤ tm.expiration := by
      by_contra hnone
      apply hfirst
      rw [earliest_iff]
      intro e he
      by_contra hle
      exact hnone ⟨e, he, not_lt.mp hle⟩
    apply h.alarm.keep hfd
    · intro b hb
      exact ⟨b, hbatch.trans hb, rfl⟩
    · intro e he
      rcases hold e he with hwhen | hmem
      · exact ⟨f, hf, hle.trans (le_of_eq hwhen.symm)⟩
      · exact ⟨e, hmem, le_refl _⟩

/-- `handle_read` leaves only later timers in the queue, whatever it read. -/
theorem Watched.beginRead (h : Watched w) {now : Timestamp} {t : TimerState}
    (hidle : w.timers.batch = none) (hheap : t.queue.heap = w.timers.queue.heap)
    (hbatch : t.batch = some ⟨now, [], w.timers.queue.due now⟩) (hrep : t.queue.Rep t.out) :
    (w.serve t).Alarmed := by
  left
  intro e he
  refine ⟨_, hbatch, ?_⟩
  have hout : t.out = (w.timers.queue.due now).map Entry.timer := by
    rw [TimerState.out, hbatch]
    rfl
  obtain ⟨u, hu, hno, hwhen⟩ := (hrep.timers e).mp he
  rw [hheap] at hu
  rw [hout] at hno
  have hwaits : w.timers.out = [] := by rw [TimerState.out, hidle]
  have hmem : e ∈ w.timers.queue.timers := by
    rw [h.sound.rep.timers e, hwaits]
    exact ⟨u, hu, List.not_mem_nil, hwhen⟩
  by_contra hle
  have hdue := (TimerQueue.mem_due h.sound.rep).mpr ⟨hmem, not_lt.mp hle⟩
  exact hno (List.mem_map_of_mem hdue)

/-- At the end of `handle_read` the first entry is valid and gets an alarm, or it
    was added by a callback, which has armed the timerfd after the read. -/
theorem Watched.endRead (h : Watched w) {now : Timestamp} {ran : List Entry} {t : TimerState}
    (hbatch : w.timers.batch = some ⟨now, ran, []⟩)
    (hheap : t.queue.heap = w.timers.queue.heapAfter now (ran.map Entry.timer))
    (hrep : t.queue.Rep [])
    (hfd : (w.serve t).timerfd = (t.queue.rearming w.clock).foldl (Timerfd.handle w.clock)
      w.timerfd) :
    (w.serve t).Alarmed := by
  have hnow : 0 < now := h.now _ hbatch
  have hout : w.timers.out = ran.map Entry.timer := by
    rw [TimerState.out, hbatch]
    exact congrArg (List.map Entry.timer) (List.append_nil ran)
  -- what is restarted comes after `now`
  have hold : ∀ e ∈ t.queue.timers, 0 < e.when ∨ e ∈ w.timers.queue.timers := by
    intro e he
    obtain ⟨u, hu, _, hwhen⟩ := (hrep.timers e).mp he
    rw [hheap, TimerQueue.heapAfter] at hu
    split at hu
    · obtain ⟨v, hv, hkept⟩ := Option.bind_eq_some_iff.mp hu
      split at hkept
      · rename_i hkeep
        cases hkept
        left
        rw [← hwhen, Timer.restart, if_pos hkeep.1]
        exact add_pos_of_pos_of_nonneg hnow (Int.natCast_nonneg _)
      · cases hkept
    · rename_i hno
      right
      rw [h.sound.rep.timers e, hout]
      exact ⟨u, hu, hno, hwhen⟩
  cases hfirst : t.queue.timers.first with
  | none =>
    left
    intro e he
    exact absurd he (OrderedSet.first_eq_none.mp hfirst e)
  | some f =>
    have hle : ∀ e ∈ t.queue.timers, f.when ≤ e.when := fun e he =>
      Entry.when_le (OrderedSet.first_le hfirst he)
    right
    rw [hfd, TimerQueue.rearming, hfirst]
    dsimp only
    split
    · exact timely_settime w.timerfd hle
    · rename_i hinvalid
      have hpast : f.when ≤ 0 := not_lt.mp fun hpos => hinvalid (decide_eq_true hpos)
      have hf : f ∈ w.timers.queue.timers :=
        (hold f (OrderedSet.first_mem hfirst)).resolve_left (not_lt.mpr hpast)
      rcases h.alarm with hexc | htimely
      · obtain ⟨b, hb, hlt⟩ := hexc f hf
        rw [hbatch] at hb
        cases hb
        exact absurd (hnow.trans hlt) (not_lt.mpr hpast)
      · exact htimely.mono fun e he => ⟨f, hf, hle e he⟩

theorem Watched.step (h : Watched w) {l : TimerStep} {t : TimerState}
    (hclock : AtClock w.clock l) (hstep : TimerState.system.step w.timers l t) :
    Watched (w.serve t) := by
  obtain ⟨heff, hsound⟩ := TimerState.step_spec h.sound hstep
  have hfd := serve_timerfd h.sound hstep
  refine ⟨hsound, h.clock, ?_, ?_, values_step h.sound h.values hstep⟩
  · intro b hb
    cases heff with
    | addTimer _ _ _ _ _ => exact h.now b hb
    | cancelFound _ _ _ _ _ _ => exact h.now b hb
    | cancelUnknown _ _ _ => exact h.now b hb
    | beginRead _ _ _ _ =>
      cases hb
      exact hclock.1
    | runNext hbatch _ =>
      cases hb
      have hpos := h.now _ hbatch
      exact hpos
    | endRead _ _ => cases hb
  · cases heff with
    | addTimer _ _ hheap _ _ =>
      cases hclock
      exact h.addTimer hheap hsound.rep rfl hfd
    | cancelFound _ _ _ hheap _ _ =>
      apply h.alarm.keep hfd (fun b hb => ⟨b, hb, rfl⟩)
      intro e he
      obtain ⟨u, hu, hout, hwhen⟩ := (hsound.rep.timers e).mp he
      rw [hheap] at hu
      have hlive := (TimerQueue.heap_remove_eq_some.mp hu).2
      exact ⟨e, (h.sound.rep.timers e).mpr ⟨u, hlive, hout, hwhen⟩, le_refl _⟩
    | cancelUnknown hheap _ _ =>
      apply h.alarm.keep hfd (fun b hb => ⟨b, hb, rfl⟩)
      intro e he
      obtain ⟨u, hu, hout, hwhen⟩ := (hsound.rep.timers e).mp he
      rw [hheap] at hu
      exact ⟨e, (h.sound.rep.timers e).mpr ⟨u, hu, hout, hwhen⟩, le_refl _⟩
    | beginRead hidle hheap _ _ => exact h.beginRead hidle hheap rfl hsound.rep
    | runNext hbatch _ =>
      apply h.alarm.keep hfd
      · intro b hb
        rw [hbatch] at hb
        cases hb
        exact ⟨_, rfl, rfl⟩
      · intro e he
        exact ⟨e, he, le_refl _⟩
    | endRead hbatch hheap =>
      cases hclock
      exact h.endRead hbatch hheap hsound.rep hfd

theorem reachable_watched (h : system.Reachable w) : Watched w := by
  apply h.invariant
  · rintro w ⟨hnew, hfd, hclock⟩
    refine ⟨hnew ▸ TimerState.new_sound, hclock, ?_, ?_, ?_⟩
    · rw [hnew]
      exact nofun
    · left
      rw [hnew]
      intro e he
      exact absurd he (OrderedSet.not_mem_empty e)
    · rw [hnew]
      exact nofun
  · intro w l w' hw hstep
    obtain ⟨hl, hnext⟩ := hstep
    cases l with
    | elapse clock =>
      cases hnext
      exact ⟨hw.sound, lt_of_lt_of_le hw.clock hl, hw.now, hw.alarm, hw.values⟩
    | step l =>
      obtain ⟨t, ht, _, _⟩ := TimerState.next_spec hw.sound hl.2
      simp only [next, ht, bind, Except.bind] at hnext
      cases hnext
      exact hw.step hl.1 ⟨hl.2, ht⟩

/-- **A pending timer has an alarm.** Outside `handle_read`, while a timer waits
    the timerfd has fired and not been read since, or is armed with a deadline not
    later than the earliest expiration, or than 100 microseconds after the last
    arming. No value given to `timerfd_settime` is invalid or disarms it. -/
theorem pending_timer_has_alarm (h : system.Reachable w) :
    (w.timers.batch = none → ∀ e, w.timers.queue.timers.first = some e →
      w.timerfd.Fired w.clock ∨
      ∃ d, w.timerfd.ArmedAt w.clock d ∧ d ≤ max e.when (w.timerfd.lastArming + 100) * 1000) ∧
    ∀ c v, .settime c v ∈ w.timers.queue.timerfd →
      v ≠ ⟨0, 0⟩ ∧ 0 ≤ v.tvNsec ∧ v.tvNsec < 10 ^ 9 ∧ 0 ≤ v.tvSec := by
  have hw := reachable_watched h
  refine ⟨?_, hw.values⟩
  intro hidle e hfirst
  have hmem := OrderedSet.first_mem hfirst
  rcases hw.alarm with hexc | ⟨d, hd, hlate⟩
  · obtain ⟨b, hb, _⟩ := hexc e hmem
    rw [hidle] at hb
    cases hb
  · by_cases hfired : d ≤ w.clock * 1000
    · exact Or.inl ⟨d, hd, hfired⟩
    · exact Or.inr ⟨d, ⟨hd, not_le.mp hfired⟩, hlate e hmem⟩

theorem pending_timer_has_alarm_negative :
    ∃ w : AlarmState, system.Reachable w ∧ w.timers.queue.timers.first = some (.mk (-5) 16) ∧
      (w.timerfd.Fired w.clock ∨ ∃ d, w.timerfd.ArmedAt w.clock d ∧
        d ≤ max (-5) (w.timerfd.lastArming + 100) * 1000) := by
  -- the callback of a timer adds one with an expiration that is not valid
  let w₀ : AlarmState := ⟨.new, ⟨none, 0⟩, 1000⟩
  let tr : List AlarmStep :=
    [.step (.addTimer 8 ⟨500, 0, false, 0⟩ 1000), .elapse 1100, .step (.beginRead 1100),
      .step .runNext, .step (.addTimer 16 ⟨-5, 0, false, 1⟩ 1100), .step (.endRead 1100)]
  have hval : (w₀.after tr).map (fun w => (w.timers.queue.timers.first, w.timers.batch.isNone)) =
      some (some (.mk (-5) 16), true) := by
    decide +kernel
  obtain ⟨w, hw, heq⟩ := Option.map_eq_some_iff.mp hval
  obtain ⟨hfirst, hidle⟩ := Prod.mk.inj heq
  have hreach : system.Reachable w := ⟨w₀, tr, ⟨rfl, rfl, by decide⟩, run_of_after hw⟩
  have hall := pending_timer_has_alarm hreach
  exact ⟨w, hreach, hfirst, hall.1 (Option.isNone_iff_eq_none.mp hidle) _ hfirst⟩

end AlarmState

end DamnWebServer
