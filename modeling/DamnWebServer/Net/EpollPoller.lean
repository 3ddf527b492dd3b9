import DamnWebServer.Lib.Potential
import DamnWebServer.Lib.RoundRobin
import DamnWebServer.Net.PollerRuns

/-!
# The event array of the poller

`Epoll_Poller::poll` reads as many events as `events_` has room for, sixteen at first, and
doubles `events_` whenever it was filled (`net/epoll_poller.cpp`). More channels may be ready
than fit; then `epoll_wait` goes round them. A channel that waits moves up by the size of the
array at every poll, and the array doubles at every poll that leaves it out, so it does not
wait long; and the array stops growing once it is larger than the number of channels.
-/

namespace DamnWebServer

/-- `epoll_wait` over these ready channels, each with what it is ready for: the first
    `maxevents` of them, or `EINVAL`. -/
def epollWait (ready : List Nat) (mask : Nat → PollMask) (maxevents : Int) :
    Except Errno (List EpollEvent) :=
  if maxevents ≤ 0 then .error (.other 22)
  else .ok ((ready.take maxevents.toNat).map fun ch => ⟨mask ch, ch⟩)

namespace EpollPoller

/-- `k_init_event_list_size`. -/
def kInitEventListSize : Nat := 16

/-- `fill_active_channels` on an array of this size. -/
def fillActiveChannels (size : Nat) (reported : List EpollEvent) :
    Except Fault (List (Nat × PollMask)) := do
  require (reported.length ≤ size) "static_cast<size_t>(num_events) <= events_.size()"
  return EpollEvent.fillActiveChannels reported

/-- `poll` after `epoll_wait`, on an array of this size: its size from now on, and the active
    channels. -/
def poll (size : Nat) : Except Errno (List EpollEvent) → Except Fault (Nat × List (Nat × PollMask))
  | .ok reported =>
    if 0 < reported.length then do
      let active ← fillActiveChannels size reported
      return (if reported.length = size then size * 2 else size, active)
    else .ok (size, [])
  | .error _ => .ok (size, [])

end EpollPoller

/-- The poller and the ready channels of its `epollfd_`. -/
structure EpollPoller where
  /-- `events_.size()`. -/
  size : Nat
  /-- In the order in which `epoll_wait` would report them. -/
  ready : List Nat
  deriving DecidableEq, Repr

inductive EpollStep where
  /-- A channel gets an event it watches for. -/
  | becomesReady (ch : Nat)
  /-- It has been handled, or nobody watches it any more. -/
  | ceases (ch : Nat)
  /-- `epoll_wait` fails. -/
  | interrupted (error : Errno)
  /-- The active channels, and those left out. -/
  | poll (active : List (Nat × PollMask)) (missed : List Nat)

namespace EpollStep

def isPoll : EpollStep → Bool
  | .poll _ _ => true
  | _ => false

/-- A poll that leaves somebody out. -/
def misses : EpollStep → Bool
  | .poll _ missed => !missed.isEmpty
  | _ => false

/-- The channel is neither reported nor taken away. -/
def Passes (ch : Nat) (l : EpollStep) : Prop :=
  l ≠ .ceases ch ∧ match l with
    | .poll active _ => ch ∉ active.map Prod.fst
    | _ => True

end EpollStep

namespace EpollPoller

variable {n : Nat} {s t : EpollPoller}

/-- `Epoll_Poller(loop)`. -/
def new : EpollPoller := ⟨kInitEventListSize, []⟩

/-- The poller and the kernel, with `n` channels to watch. The channels that `epoll_wait` has
    reported stand behind the others afterwards. -/
inductive Step (n : Nat) (s : EpollPoller) : EpollStep → EpollPoller → Prop where
  | becomesReady {ch : Nat} (hnew : ch ∉ s.ready) (hroom : s.ready.length < n) :
      Step n s (.becomesReady ch) { s with ready := s.ready ++ [ch] }
  | ceases {ch : Nat} : Step n s (.ceases ch) { s with ready := s.ready.erase ch }
  | interrupted {error : Errno} {size : Nat} (hpoll : poll s.size (.error error) = .ok (size, [])) :
      Step n s (.interrupted error) { s with size := size }
  | poll {mask : Nat → PollMask} {reported : List EpollEvent} {size : Nat}
      {active : List (Nat × PollMask)}
      (hwait : epollWait s.ready mask (toInt s.size) = .ok reported)
      (hpoll : poll s.size (.ok reported) = .ok (size, active)) :
      Step n s (.poll active (s.ready.drop reported.length))
        ⟨size, RoundRobin.serve reported.length s.ready⟩

def system (n : Nat) : Transition.System EpollPoller EpollStep where
  init s := s = new
  step := Step n

/-- What every run keeps. -/
structure Inv (n : Nat) (s : EpollPoller) : Prop where
  nodup : s.ready.Nodup
  few : s.ready.length ≤ n
  doubled : ∃ k, s.size = kInitEventListSize * 2 ^ k
  bounded : s.size ≤ max kInitEventListSize (2 * n)

/-- What `epoll_wait` reports into an array of this size. -/
theorem epollWait_eq (hpos : 0 < s.size) (hlt : s.size < 2 ^ 31) (mask : Nat → PollMask) :
    epollWait s.ready mask (toInt s.size) = .ok ((s.ready.take s.size).map fun ch => ⟨mask ch, ch⟩) := by
  rw [toInt_of_lt hlt, epollWait, if_neg (by omega), Int.toNat_natCast]

/-- `poll` returns, and doubles the array if it was filled. -/
theorem poll_eq (hpos : 0 < s.size) (mask : Nat → PollMask) :
    poll s.size (.ok ((s.ready.take s.size).map fun ch => ⟨mask ch, ch⟩)) =
      .ok (if s.size ≤ s.ready.length then s.size * 2 else s.size,
        (s.ready.take s.size).map fun ch => (ch, mask ch)) := by
  have hlen : ((s.ready.take s.size).map fun ch => (⟨mask ch, ch⟩ : EpollEvent)).length =
      min s.size s.ready.length := by
    rw [List.length_map, List.length_take]
  have hfill : fillActiveChannels s.size ((s.ready.take s.size).map fun ch => ⟨mask ch, ch⟩) =
      .ok ((s.ready.take s.size).map fun ch => (ch, mask ch)) := by
    rw [fillActiveChannels, hlen, decide_eq_true (Nat.min_le_left _ _), EpollEvent.fillActiveChannels,
      List.map_map]
    rfl
  unfold poll
  dsimp only
  rw [hlen, hfill]
  by_cases hready : s.ready = []
  · rw [hready, if_neg (by simp), if_neg (by simpa using hpos.ne'), List.take_nil]
    rfl
  · have hsome := List.length_pos_iff.mpr hready
    rw [if_pos (by omega)]
    have hiff : min s.size s.ready.length = s.size ↔ s.size ≤ s.ready.length := by omega
    simp only [hiff]
    rfl

/-- What a poll does, on an array whose size is an `int`. -/
theorem poll_cases (hpos : 0 < s.size) (hlt : s.size < 2 ^ 31) {active : List (Nat × PollMask)}
    {missed : List Nat} (h : Step n s (.poll active missed) t) :
    active.map Prod.fst = s.ready.take s.size ∧ missed = s.ready.drop s.size ∧
      t = ⟨if s.size ≤ s.ready.length then s.size * 2 else s.size,
        RoundRobin.serve s.size s.ready⟩ := by
  cases h with
  | @poll mask reported size _ hwait hpoll =>
    rw [epollWait_eq hpos hlt] at hwait
    cases hwait
    rw [poll_eq hpos] at hpoll
    cases hpoll
    have hdrop : s.ready.drop (min s.size s.ready.length) = s.ready.drop s.size := by
      rw [Nat.min_def]
      split
      · rfl
      · rw [List.drop_length, List.drop_eq_nil_of_le (by omega)]
    have hserve : RoundRobin.serve (min s.size s.ready.length) s.ready =
        RoundRobin.serve s.size s.ready := by
      rw [RoundRobin.serve, RoundRobin.serve, hdrop, Nat.min_def]
      split
      · rfl
      · rw [List.take_length, List.take_of_length_le (by omega)]
    rw [List.length_map, List.length_take, List.map_map, hdrop, hserve]
    exact ⟨List.map_id _, rfl, rfl⟩

/-- A poll that leaves somebody out has filled the array. -/
theorem lt_length_of_misses {active : List (Nat × PollMask)} {missed : List Nat}
    (h : (EpollStep.poll active missed).misses = true) (hmissed : missed = s.ready.drop s.size) :
    s.size < s.ready.length := by
  subst hmissed
  by_contra hle
  rw [EpollStep.misses, List.drop_eq_nil_of_le (Nat.le_of_not_lt hle)] at h
  cases h

theorem new_inv : Inv n new where
  nodup := List.nodup_nil
  few := Nat.zero_le n
  doubled := ⟨0, rfl⟩
  bounded := Nat.le_max_left _ _

theorem Inv.size_pos (h : Inv n s) : kInitEventListSize ≤ s.size := by
  obtain ⟨k, hk⟩ := h.doubled
  rw [hk]
  exact Nat.le_mul_of_pos_right _ (Nat.two_pow_pos k)

theorem Inv.size_lt (h : Inv n s) (hn : 2 * n < 2 ^ 31) : s.size < 2 ^ 31 := by
  have hbounded := h.bounded
  unfold kInitEventListSize at hbounded
  omega

/-- What a poll does in a run. -/
theorem Inv.poll_cases (h : Inv n s) (hn : 2 * n < 2 ^ 31) {active : List (Nat × PollMask)}
    {missed : List Nat} (hstep : Step n s (.poll active missed) t) :
    active.map Prod.fst = s.ready.take s.size ∧ missed = s.ready.drop s.size ∧
      t = ⟨if s.size ≤ s.ready.length then s.size * 2 else s.size,
        RoundRobin.serve s.size s.ready⟩ :=
  EpollPoller.poll_cases (Nat.lt_of_lt_of_le (by decide) h.size_pos) (h.size_lt hn) hstep

theorem Inv.step (h : Inv n s) (hn : 2 * n < 2 ^ 31) {l : EpollStep} (hstep : Step n s l t) :
    Inv n t := by
  cases l with
  | becomesReady ch =>
    cases hstep with
    | becomesReady hnew hroom =>
      refine { h with nodup := ?_, few := ?_ }
      · exact List.nodup_append.mpr ⟨h.nodup, List.nodup_singleton ch, by
          intro a ha b hb
          rw [List.mem_singleton.mp hb]
          exact fun heq => hnew (heq ▸ ha)⟩
      · rw [List.length_append]
        exact hroom
  | ceases ch =>
    cases hstep
    refine { h with nodup := ?_, few := ?_ }
    · exact h.nodup.erase ch
    · exact List.length_erase_le.trans h.few
  | interrupted error =>
    cases hstep with
    | interrupted hpoll =>
      cases hpoll
      exact h
  | poll active missed =>
    obtain ⟨_, _, rfl⟩ := h.poll_cases hn hstep
    refine ⟨RoundRobin.nodup_serve.mpr h.nodup, ?_, ?_, ?_⟩
    · rw [RoundRobin.length_serve]
      exact h.few
    · obtain ⟨k, hk⟩ := h.doubled
      show ∃ k, (if s.size ≤ s.ready.length then s.size * 2 else s.size) = kInitEventListSize * 2 ^ k
      split
      · exact ⟨k + 1, by rw [hk, Nat.pow_succ, Nat.mul_assoc]⟩
      · exact ⟨k, hk⟩
    · show (if s.size ≤ s.ready.length then s.size * 2 else s.size) ≤ max kInitEventListSize (2 * n)
      have hfew := h.few
      have hbounded := h.bounded
      split <;> omega

theorem reachable_inv (hn : 2 * n < 2 ^ 31) (h : (system n).Reachable s) : Inv n s := by
  refine h.invariant ?_ ?_
  · rintro _ rfl
    exact new_inv
  · intro s l t hs hstep
    exact hs.step hn hstep

/-- A step never shrinks the array, and doubles it when it leaves somebody out. -/
theorem Inv.grows (h : Inv n s) (hn : 2 * n < 2 ^ 31) {l : EpollStep} (hstep : Step n s l t) :
    s.size * 2 ^ (if l.misses then 1 else 0) ≤ t.size := by
  cases l with
  | becomesReady ch | ceases ch =>
    cases hstep
    exact (Nat.mul_one _).le
  | interrupted error =>
    cases hstep with
    | interrupted hpoll =>
      cases hpoll
      exact (Nat.mul_one _).le
  | poll active missed =>
    obtain ⟨_, hmissed, rfl⟩ := h.poll_cases hn hstep
    show _ ≤ if s.size ≤ s.ready.length then s.size * 2 else s.size
    split
    · next hmisses =>
      rw [if_pos (lt_length_of_misses hmisses hmissed).le]
      exact le_rfl
    · rw [Nat.pow_zero, Nat.mul_one]
      split <;> omega

/-- **The array suffices.** In every run with `n` channels to watch, the array grows by doubling
    and stays within twice what is watched; a poll that leaves a ready channel out happens only so
    often; and every poll returns, its assertion holds. -/
theorem array_suffices {tr : List EpollStep} (hn : 2 * n < 2 ^ 31) (hrun : (system n).Run new tr s) :
    (∃ k, s.size = kInitEventListSize * 2 ^ k) ∧ s.size ≤ max kInitEventListSize (2 * n) ∧
      kInitEventListSize * 2 ^ tr.countP EpollStep.misses ≤ s.size ∧
      ∀ mask, ∃ reported size active, epollWait s.ready mask (toInt s.size) = .ok reported ∧
        poll s.size (.ok reported) = .ok (size, active) := by
  have hkeep : ∀ v l w, Inv n v → (system n).step v l w → Inv n w :=
    fun v l w hv hstep => hv.step hn hstep
  have hinv := hrun.invariant hkeep new_inv
  refine ⟨hinv.doubled, hinv.bounded, ?_, ?_⟩
  · exact hrun.two_pow_le size hkeep (fun v l w hv hstep => hv.grows hn hstep) new_inv
  · intro mask
    have hpos : 0 < s.size := Nat.lt_of_lt_of_le (by decide) hinv.size_pos
    exact ⟨_, _, _, epollWait_eq hpos (hinv.size_lt hn) mask, poll_eq hpos mask⟩

theorem run_becomesReady {size : Nat} {q chs : List Nat} (hnodup : (q ++ chs).Nodup)
    (hroom : (q ++ chs).length ≤ n) :
    (system n).Run ⟨size, q⟩ (chs.map .becomesReady) ⟨size, q ++ chs⟩ := by
  induction chs generalizing q with
  | nil =>
    rw [List.append_nil]
    exact .nil
  | cons ch chs ih =>
    rw [← List.singleton_append, ← List.append_assoc] at hnodup hroom ⊢
    have hnew : ch ∉ q := fun hmem =>
      (List.nodup_append.mp (List.nodup_append.mp hnodup).1).2.2 ch hmem ch List.mem_cons_self rfl
    have hlen : q.length < n := by
      rw [List.length_append, List.length_append] at hroom
      exact Nat.lt_of_lt_of_le (Nat.lt_succ_self _) ((Nat.le_add_right _ _).trans hroom)
    have hstep : (system n).step ⟨size, q⟩ (.becomesReady ch) ⟨size, q ++ [ch]⟩ :=
      Step.becomesReady hnew hlen
    exact (Transition.System.Run.single hstep).append (ih hnodup hroom)

/-- Seventeen ready channels. -/
def sample : EpollPoller := ⟨kInitEventListSize, List.range 17⟩

theorem run_sample : (system 17).Run new ((List.range 17).map .becomesReady) sample :=
  run_becomesReady List.nodup_range (by decide)

/-- The last of them is left out once, and the array has thirty-two places. -/
theorem poll_sample : Step 17 sample (.poll ((List.range 16).map fun ch => (ch, kReadEvent)) [16])
    ⟨32, 16 :: List.range 16⟩ := by
  have hwait : epollWait sample.ready (fun _ => kReadEvent) (toInt sample.size) =
      .ok ((List.range 16).map fun ch => ⟨kReadEvent, ch⟩) := by
    rfl
  exact .poll hwait rfl

theorem array_suffices_sample : ∃ (tr : List EpollStep) (s : EpollPoller),
    (system 17).Run new tr s ∧ tr.countP EpollStep.misses = 1 ∧ s.size = 32 ∧
      s.size ≤ max kInitEventListSize (2 * 17) ∧
      kInitEventListSize * 2 ^ tr.countP EpollStep.misses ≤ s.size := by
  have hrun := run_sample.snoc poll_sample
  have hall := array_suffices (by decide) hrun
  exact ⟨_, _, hrun, by decide, rfl, hall.2.1, hall.2.2.1⟩

/-- What a channel waits for: its place in the queue and one array. -/
def wait (s : EpollPoller) (ch : Nat) : Nat := s.ready.idxOf ch + s.size

/-- A channel that waits, since the state `s`. -/
structure Waiting (n : Nat) (s : EpollPoller) (ch : Nat) (t : EpollPoller) : Prop extends Inv n t where
  ready : ch ∈ t.ready
  wait_le : t.wait ch ≤ s.wait ch

/-- A step that neither reports the channel nor takes it away lets it keep its place, and a poll
    doubles the array. -/
theorem Waiting.step {u : EpollPoller} {ch : Nat} (h : Waiting n s ch t) (hn : 2 * n < 2 ^ 31)
    {l : EpollStep} (hstep : Step n t l u) (hpasses : l.Passes ch) :
    Waiting n s ch u ∧ t.size * 2 ^ (if l.isPoll then 1 else 0) ≤ u.size := by
  have hinv := h.toInv.step hn hstep
  have hwait := h.wait_le
  cases l with
  | becomesReady other =>
    cases hstep
    refine ⟨⟨hinv, List.mem_append_left _ h.ready, ?_⟩, (Nat.mul_one _).le⟩
    show List.idxOf ch (t.ready ++ [other]) + t.size ≤ s.wait ch
    rw [List.idxOf_append_of_mem h.ready]
    exact hwait
  | ceases other =>
    have hne : other ≠ ch := fun heq => hpasses.1 (heq ▸ rfl)
    cases hstep
    refine ⟨⟨hinv, (List.mem_erase_of_ne hne.symm).mpr h.ready, ?_⟩, (Nat.mul_one _).le⟩
    exact (Nat.add_le_add_right (RoundRobin.idxOf_erase_le hne t.ready) t.size).trans hwait
  | interrupted error =>
    cases hstep with
    | interrupted hpoll =>
      cases hpoll
      exact ⟨h, (Nat.mul_one _).le⟩
  | poll active missed =>
    obtain ⟨hactive, _, rfl⟩ := h.poll_cases hn hstep
    have hmissed : ch ∉ t.ready.take t.size := hactive ▸ hpasses.2
    have hfull := RoundRobin.lt_length_of_notMem_take h.ready hmissed
    have hplace := RoundRobin.idxOf_serve h.ready hmissed
    rw [if_pos hfull.le] at hinv ⊢
    refine ⟨⟨hinv, RoundRobin.mem_serve.mpr h.ready, ?_⟩, le_rfl⟩
    unfold wait at hwait ⊢
    show List.idxOf ch (RoundRobin.serve t.size t.ready) + t.size * 2 ≤ s.ready.idxOf ch + s.size
    omega

/-- **No channel starves.** While a channel stays ready and no poll reports it, the array doubles
    with every poll, and stays within the place that the channel had in the queue at the beginning:
    so many polls, and no more, can leave it out. -/
theorem no_starvation {ch : Nat} {tr : List EpollStep} (hn : 2 * n < 2 ^ 31)
    (h : (system n).Reachable s) (hready : ch ∈ s.ready)
    (hrun : ((system n).restrict fun _ l => l.Passes ch).Run s tr t) :
    ch ∈ t.ready ∧ s.size * 2 ^ tr.countP EpollStep.isPoll ≤ s.ready.idxOf ch + s.size := by
  have hstart : Waiting n s ch s := ⟨reachable_inv hn h, hready, le_rfl⟩
  have hkeep : ∀ v l w, Waiting n s ch v →
      ((system n).restrict fun _ l => l.Passes ch).step v l w → Waiting n s ch w :=
    fun v l w hv hstep => (hv.step hn hstep.2 hstep.1).1
  have hend := hrun.invariant hkeep hstart
  have hsize := hrun.two_pow_le size hkeep (fun v l w hv hstep => (hv.step hn hstep.2 hstep.1).2) hstart
  have hwait := hend.wait_le
  unfold wait at hwait
  exact ⟨hend.ready, by omega⟩

/-- The bound is reached by the last of seventeen channels. -/
theorem no_starvation_sample : ∃ (tr : List EpollStep) (t : EpollPoller),
    (system 17).Reachable sample ∧ (system 17).Run sample tr t ∧ 16 ∈ t.ready ∧
      tr.countP EpollStep.isPoll = 1 ∧
      sample.size * 2 ^ tr.countP EpollStep.isPoll ≤ sample.ready.idxOf 16 + sample.size := by
  have hpasses : (EpollStep.poll ((List.range 16).map fun ch => (ch, kReadEvent)) [16]).Passes 16 := by
    refine ⟨nofun, ?_⟩
    show 16 ∉ ((List.range 16).map fun ch => (ch, kReadEvent)).map Prod.fst
    decide
  have hreach : (system 17).Reachable sample := ⟨new, _, rfl, run_sample⟩
  have hrun : ((system 17).restrict fun _ l => l.Passes 16).Run sample _ _ :=
    .single ⟨hpasses, poll_sample⟩
  obtain ⟨hready, hbound⟩ := no_starvation (by decide) hreach (by decide) hrun
  exact ⟨_, _, hreach, hrun.of_restrict, hready, rfl, hbound⟩

end EpollPoller

end DamnWebServer
