import DamnWebServer.Lib.Monitor

/-!
# The count-down latch

`Count_Down_Latch` (`base/count_down_latch.cpp`) with its `Mutex` (`base/mutex.h`) and its
`Condition` (`base/condition.h`): the three functions are procedures of a monitor, whose
holder is `holder_`. `count_` is kept clear of the ends of `int`.
-/

namespace DamnWebServer

/-- The member functions. -/
inductive LatchCall where
  | wait | countDown | getCount
  deriving DecidableEq, Repr

namespace CountDownLatch

open Monitor

def wait : Procedure Int (Option Int) where
  -- `while (count_ > 0)`
  guard count := !decide (0 < count)
  body count := (count, none)
  notice _ := .nobody

def countDown : Procedure Int (Option Int) where
  guard _ := true
  body count := (count - 1, none)
  notice count := if count = 0 then .all else .nobody

def getCount : Procedure Int (Option Int) where
  guard _ := true
  body count := (count, some count)
  notice _ := .nobody

def proc : LatchCall → Procedure Int (Option Int)
  | .wait => wait
  | .countDown => countDown
  | .getCount => getCount

/-- A latch with any threads that call what they like. -/
abbrev Latch (τ : Type) := Monitor.State τ LatchCall Int (Option Int)

def system (τ : Type) [DecidableEq τ] (count : Int) :
    Transition.System (Latch τ) (Monitor.Event τ LatchCall (Option Int)) :=
  Monitor.system proc (fun _ _ => True) count

/-- How many bodies of `count_down()` have been run. -/
def countDowns {τ : Type} (log : List (Entry τ LatchCall (Option Int))) : Nat :=
  log.countP fun x => x.call = .countDown

theorem countDowns_append {τ : Type} (log log' : List (Entry τ LatchCall (Option Int))) :
    countDowns (log ++ log') = countDowns log + countDowns log' :=
  List.countP_append

/-- `count_` is what is left of the initial count. -/
theorem count_eq {τ : Type} {count count' : Int} {log : List (Entry τ LatchCall (Option Int))}
    (h : Serial proc count log count') : count' = count - countDowns log := by
  induction h with
  | nil => exact (Int.sub_zero count).symm
  | @snoc log s' t c _ _ ih =>
    rw [countDowns_append]
    cases c with
    | countDown =>
      show s' - 1 = count - ((countDowns log + 1 : Nat) : Int)
      omega
    | wait | getCount => exact ih

/-- Only the call that makes `count_` zero opens the latch, and it wakes everybody. -/
theorem announces (may : τ → LatchCall → Prop) : Announces proc may := by
  intro c d count _ hclosed hopen
  cases d with
  | countDown | getCount => cases hclosed
  | wait =>
    have hpos : 0 < count := by simpa [proc, wait] using hclosed
    cases c with
    | wait | getCount =>
      have hle : count ≤ 0 := by simpa [proc, wait, getCount] using hopen
      omega
    | countDown =>
      have hle : count - 1 ≤ 0 := by simpa [proc, wait, countDown] using hopen
      have hzero : count - 1 = 0 := by omega
      exact Or.inl (if_pos hzero)

/-- One thread waits on a latch of one and goes to sleep; another counts it down. -/
theorem sample_run : ∃ tr m, (system Bool 1).Run (.start 1) tr m ∧
    .return true .wait none ∈ tr ∧ m.log = [⟨false, .countDown, none⟩, ⟨true, .wait, none⟩] ∧
      ∀ t, m.phase t = .outside := by
  have hnil : (system Bool 1).Run (.start 1) [] (.start 1) := .nil
  have hasleep := ((((hnil.snoc (.call (t := true) (c := .wait) rfl trivial)).snoc
    (.lock (t := true) rfl rfl)).snoc (.assign (t := true) rfl)).snoc
      (.wait (t := true) rfl rfl)).snoc (.sleep (t := true) rfl)
  have hcounted := ((((((hasleep.snoc (.call (t := false) (c := .countDown) rfl trivial)).snoc
    (.lock (t := false) rfl rfl)).snoc (.assign (t := false) rfl)).snoc
      (.body (t := false) rfl rfl)).snoc (.notifyAll (t := false) rfl rfl)).snoc
        (.unassign (t := false) rfl)).snoc (.unlock (t := false) rfl)
  have hreturned := (((((hcounted.snoc (.lock (t := true) rfl rfl)).snoc
    (.assign (t := true) rfl)).snoc (.body (t := true) rfl rfl)).snoc
      (.notifyNobody (t := true) rfl rfl)).snoc (.unassign (t := true) rfl)).snoc
        (.unlock (t := true) rfl)
  refine ⟨_, _, hreturned, List.mem_append_right _ (List.mem_singleton_self _), rfl, fun t => ?_⟩
  cases t <;> rfl

section Runs

variable {τ : Type} [DecidableEq τ] {count : Int} {m : Latch τ}
  {tr : List (Monitor.Event τ LatchCall (Option Int))}

/-- **`wait()` waits.** Whatever the threads do, a `wait()` that has returned found the
    latch open: at least as many `count_down()`s as it was made for came before it. -/
theorem wait_returned (h : (system τ count).Run (.start count) tr m) {t : τ} {r : Option Int}
    (hret : .return t .wait r ∈ tr) : ∃ pre post, m.log = pre ++ ⟨t, .wait, r⟩ :: post ∧
      count ≤ countDowns pre := by
  have hsound := run_sound h
  obtain ⟨pre, post, found, hlog, hserial, hopen, _⟩ := hsound.serial.before (hsound.accounted.mem_log hret)
  refine ⟨pre, post, hlog, ?_⟩
  have hfound := count_eq hserial
  have hle : found ≤ 0 := by simpa [proc, wait] using hopen
  omega

theorem wait_returned_sample : ∃ (tr : List (Monitor.Event Bool LatchCall (Option Int)))
    (m : Latch Bool) (pre post : List (Entry Bool LatchCall (Option Int))),
    (system Bool 1).Run (.start 1) tr m ∧ .return true .wait none ∈ tr ∧
    m.log = pre ++ ⟨true, .wait, none⟩ :: post ∧ (1 : Int) ≤ countDowns pre := by
  obtain ⟨tr, m, hrun, hret, _, _⟩ := sample_run
  obtain ⟨pre, post, hlog, hcount⟩ := wait_returned hrun hret
  exact ⟨tr, m, pre, post, hrun, hret, hlog, hcount⟩

/-- **The latch opens for everybody.** In every run the threads take a bounded number of
    steps for each call; and where none can go on, with `count_down()` called as often as
    the latch was made for, every `wait()` has returned, and the latch may be destroyed. -/
theorem latch_opens [Fintype τ] (h : (system τ count).Run (.start count) tr m) :
    (tr.map Event.cost).sum ≤ (tr.map (Event.credit (Fintype.card τ))).sum ∧
      (Quiescent proc (fun _ _ => True) m → count ≤ countDowns m.log →
        (∀ t, m.phase t = .outside) ∧ m.holder = none) := by
  refine ⟨run_bounded h, fun hquiet hcount => ?_⟩
  have hsound := run_sound h
  have hout : ∀ t, m.phase t = .outside := by
    intro t
    rcases hquiet.phase hsound.exclusive (run_alert (announces _) h) t with hout | ⟨c, _, hclosed⟩
    · exact hout
    · have hleft := count_eq hsound.serial
      cases c with
      | countDown | getCount => cases hclosed
      | wait =>
        have hpos : 0 < m.data := by simpa [proc, wait] using hclosed
        omega
  refine ⟨hout, ?_⟩
  cases hholder : m.holder with
  | none => rfl
  | some t =>
    have hinside := (hsound.exclusive.holder t).mp hholder
    rw [hout t] at hinside
    exact absurd hinside id

theorem latch_opens_sample : ∃ (tr : List (Monitor.Event Bool LatchCall (Option Int)))
    (m : Latch Bool), (system Bool 1).Run (.start 1) tr m ∧ .return true .wait none ∈ tr ∧
      (tr.map Event.cost).sum ≤ (tr.map (Event.credit 2)).sum ∧ m.holder = none := by
  obtain ⟨tr, m, hrun, hret, hlog, hout⟩ := sample_run
  obtain ⟨hcost, hopen⟩ := latch_opens hrun
  refine ⟨tr, m, hrun, hret, hcost, (hopen (quiescent_of_outside hout) ?_).2⟩
  rw [hlog]
  decide

end Runs

end CountDownLatch

end DamnWebServer
