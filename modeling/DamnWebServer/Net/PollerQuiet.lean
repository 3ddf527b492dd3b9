import DamnWebServer.Net.PollerRuns

/-!
# Channels with nothing to watch

`update_channel` takes a descriptor off the interest list when a registered channel
has nothing left to watch. Its other branch, for new channels and for those taken
off before, does not look at the mask: an update that leaves the mask empty there
registers the descriptor, and the kernel may report `POLLHUP` or `POLLERR` for it.
-/

namespace DamnWebServer

/-- The mask after a call. -/
def ChannelCall.mask (events : PollMask) : ChannelCall → PollMask
  | .enableReading => events.or kReadEvent
  | .enableWriting => events.or kWriteEvent
  | .disableWriting => events.without kWriteEvent
  | .disableAll => kNoneEvent
  | .remove => events

theorem ChannelCall.run_of_ne_remove (p : Poller) (ch : Channel) {call : ChannelCall}
    (h : call ≠ .remove) : call.run p ch = p.setEvents ch (call.mask ch.events) := by
  cases call with
  | remove => exact absurd rfl h
  | _ => rfl

/-- The two calls that take something off the mask. -/
def ChannelCall.Disables (call : ChannelCall) : Prop := call = .disableAll ∨ call = .disableWriting

theorem ChannelCall.Disables.mask_mask {call : ChannelCall} (h : call.Disables)
    (events : PollMask) : call.mask (call.mask events) = call.mask events := by
  rcases h with rfl | rfl
  · rfl
  · simp [ChannelCall.mask, PollMask.without]

namespace PollerState

variable {ι : Type} [DecidableEq ι] {st st' : PollerState ι} {l : ι × ChannelCall}

/-- A channel with an empty mask is not registered, and no poll reports it. -/
def Quiet (st : PollerState ι) (i : ι) : Prop :=
  (st.channel i).events = kNoneEvent →
    st.poller.interest (st.channel i).fd = none ∧
    ∀ reported, st.poller.MayReport reported →
      ∀ act ∈ EpollEvent.fillActiveChannels reported, act.1 ≠ (st.channel i).addr

/-- A call that leaves the mask empty is made while the channel is registered. -/
def Watchful (st : PollerState ι) (l : ι × ChannelCall) : Prop :=
  l.2 ≠ .remove → l.2.mask (st.channel l.1).events = kNoneEvent →
    (st.channel l.1).index = .kAdded

instance (st : PollerState ι) (l : ι × ChannelCall) : Decidable (st.Watchful l) :=
  inferInstanceAs (Decidable (_ → _ → _))

/-- A channel is quiet by its own record: the other two agree with it. -/
theorem Sound.quiet_iff (h : Sound st) (i : ι) :
    st.Quiet i ↔ ((st.channel i).events = kNoneEvent → (st.channel i).index ≠ .kAdded) := by
  have hreg := (agree_of_tracks (h.tracks i)).registered
  constructor
  · intro hquiet hnone hadded
    rw [(hquiet hnone).1] at hreg
    exact absurd (hreg.mpr hadded) Bool.false_ne_true
  · intro hidx hnone
    refine ⟨?_, fun reported hrep act hact => h.not_reported (hidx hnone) hrep hact⟩
    rw [← Option.not_isSome_iff_eq_none, hreg]
    exact hidx hnone

/-- What a step does to the channels, and to the interest list elsewhere. -/
structure Effect (st : PollerState ι) (l : ι × ChannelCall) (st' : PollerState ι) : Prop where
  sound : Sound st'
  others : ∀ j, j ≠ l.1 → st'.channel j = st.channel j
  fd : (st'.channel l.1).fd = (st.channel l.1).fd
  addr : (st'.channel l.1).addr = (st.channel l.1).addr
  events : (st'.channel l.1).events = l.2.mask (st.channel l.1).events
  index : (st'.channel l.1).index =
    if l.2 = .remove then .kNew
    else Poller.nextIndex (st.channel l.1).index (l.2.mask (st.channel l.1).events)
  same : Poller.SameExcept (st.channel l.1).fd st.poller st'.poller

theorem Sound.effect (h : Sound st) (hl : st.Permitted l) (hperf : st.perform l = .ok st') :
    Effect st l st' := by
  obtain ⟨p', ch', hmoves⟩ := h.moves hl
  have hsound := hmoves.sound h
  rw [hmoves.perform_eq] at hperf
  cases hperf
  obtain ⟨hevents, hindex⟩ : ch'.events = l.2.mask (st.channel l.1).events ∧ ch'.index =
      if l.2 = .remove then .kNew
      else Poller.nextIndex (st.channel l.1).index (l.2.mask (st.channel l.1).events) := by
    have hran := hmoves.ran
    by_cases hrem : l.2 = .remove
    · have hnone := (hl hrem).1
      obtain ⟨q, hq, _⟩ := Poller.remove_spec (h.tracks l.1) hnone ((h.known l.1).mp (hl hrem).2)
      rw [hrem] at hran ⊢
      cases hq.symm.trans hran
      exact ⟨rfl, rfl⟩
    · obtain ⟨q, hq, _⟩ := Poller.setEvents_spec (h.tracks l.1)
        (l.2.mask (st.channel l.1).events)
      rw [ChannelCall.run_of_ne_remove _ _ hrem, hq] at hran
      cases hran
      exact ⟨rfl, (if_neg hrem).symm⟩
  have hself : Function.update st.channel l.1 ch' l.1 = ch' := Function.update_self _ _ _
  exact {
    sound := hsound
    others := fun j hj => Function.update_of_ne hj _ _
    fd := (congrArg Channel.fd hself).trans hmoves.fd
    addr := (congrArg Channel.addr hself).trans hmoves.addr
    events := (congrArg Channel.events hself).trans hevents
    index := (congrArg Channel.index hself).trans hindex
    same := hmoves.same }

/-- **One call** keeps every channel quiet exactly if it is made watchfully. -/
theorem Effect.quiet_iff (he : Effect st l st') (h : Sound st) (hquiet : ∀ i, st.Quiet i) :
    (∀ i, st'.Quiet i) ↔ st.Watchful l := by
  have hhere : st'.Quiet l.1 ↔ st.Watchful l := by
    rw [he.sound.quiet_iff, he.events, he.index, Watchful]
    by_cases hrem : l.2 = .remove
    · simp [hrem]
    · by_cases hnone : l.2.mask (st.channel l.1).events = kNoneEvent
      · simp [hrem, hnone, Poller.nextIndex]
      · simp [hnone]
  rw [← hhere]
  refine ⟨fun hall => hall l.1, fun hl i => ?_⟩
  by_cases hi : i = l.1
  · rw [hi]
    exact hl
  · rw [he.sound.quiet_iff, he.others i hi, ← h.quiet_iff]
    exact hquiet i

theorem Fresh.quiet (h : Fresh st) (i : ι) : st.Quiet i := by
  rw [h.sound.quiet_iff, h.index i]
  intro _ hadded
  cases hadded

/-- **The same disabling call twice** is the same as once exactly if both times it
    is made watchfully. -/
theorem Effect.idempotent_iff {st₁ st₂ : PollerState ι} (h₁ : Effect st l st₁)
    (h₂ : Effect st₁ l st₂) (hdis : l.2.Disables) :
    st₂.poller.interest = st₁.poller.interest ↔ st.Watchful l ∧ st₁.Watchful l := by
  have hrem : l.2 ≠ .remove := by
    intro hrem
    rcases hdis with hdis | hdis <;> rw [hdis] at hrem <;> cases hrem
  have hreg₁ := (agree_of_tracks (h₁.sound.tracks l.1)).registered
  have hreg₂ := (agree_of_tracks (h₂.sound.tracks l.1)).registered
  have hmask : l.2.mask (st₁.channel l.1).events = l.2.mask (st.channel l.1).events := by
    rw [h₁.events, hdis.mask_mask]
  have hidx₁ := h₁.index
  have hidx₂ := h₂.index
  rw [if_neg hrem] at hidx₁ hidx₂
  rw [hidx₁, hmask] at hidx₂
  rw [Watchful, Watchful, hmask, hidx₁]
  rw [hidx₁] at hreg₁
  rw [hidx₂, h₂.fd] at hreg₂
  by_cases hnone : l.2.mask (st.channel l.1).events = kNoneEvent
  · -- the descriptor comes and goes
    have hdiffer : ¬(st₂.poller.interest = st₁.poller.interest) := by
      intro hsame
      rw [hsame, hreg₁, hnone] at hreg₂
      revert hreg₂
      cases (st.channel l.1).index <;> decide
    refine ⟨fun hsame => absurd hsame hdiffer, ?_⟩
    rintro ⟨hfirst, hsecond⟩
    have hadded := hsecond hrem hnone
    rw [hfirst hrem hnone, hnone] at hadded
    cases hadded
  · refine ⟨fun _ => ⟨fun _ hno => absurd hno hnone, fun _ hno => absurd hno hnone⟩, fun _ => ?_⟩
    funext fd
    by_cases hfd : fd = (st₁.channel l.1).fd
    · -- registered both times, with the same mask
      have hadded : ∀ index, Poller.nextIndex index (l.2.mask (st.channel l.1).events) = .kAdded :=
        fun index => if_neg fun hboth => hnone hboth.2
      obtain ⟨e₁, he₁⟩ := Option.isSome_iff_exists.mp (hreg₁.mpr (hadded _))
      obtain ⟨e₂, he₂⟩ := Option.isSome_iff_exists.mp (hreg₂.mpr (hadded _))
      have hentry₁ := (agree_of_tracks (h₁.sound.tracks l.1)).current _ he₁
      have hentry₂ := (agree_of_tracks (h₂.sound.tracks l.1)).current _ (h₂.fd ▸ he₂)
      rw [hfd, he₁, he₂, hentry₁, hentry₂, h₂.events, h₂.addr, hmask, h₁.events]
    · exact (h₂.same fd hfd).2

/-- **A channel with nothing to watch is not watched**, all through a run, if and
    only if every call that leaves a mask empty is made while the channel is
    registered; and a disabling call is idempotent under the same condition. -/
theorem nothing_watched_iff {st₀ : PollerState ι} {tr : List (ι × ChannelCall)} (h₀ : Fresh st₀)
    (hrun : (system ι).Run st₀ tr st) :
    ((∀ tr₁ tr₂ st', tr = tr₁ ++ tr₂ → (system ι).Run st₀ tr₁ st' → ∀ i, st'.Quiet i) ↔
        ((system ι).restrict Watchful).Run st₀ tr st) ∧
      ∀ (l : ι × ChannelCall) (st₁ st₂ : PollerState ι), l.2.Disables → st.perform l = .ok st₁ →
        st₁.perform l = .ok st₂ →
          (st₂.poller.interest = st₁.poller.interest ↔ st.Watchful l ∧ st₁.Watchful l) := by
  constructor
  · refine hrun.restrict_iff (J := Sound) ?_ ?_ ?_ (fun i => h₀.quiet i) h₀.sound
    · intro s l t u ht hu
      cases ht.2.symm.trans hu.2
      rfl
    · intro s l t hs hstep
      exact (hs.effect hstep.1 hstep.2).sound
    · intro s l t hs hquiet hstep
      exact (hs.effect hstep.1 hstep.2).quiet_iff hs hquiet
  · intro l st₁ st₂ hdis hst₁ hst₂
    have hsound := reachable_sound ⟨st₀, tr, h₀, hrun⟩
    have hperm : ∀ s : PollerState ι, s.Permitted l := by
      intro s hrem
      rcases hdis with hdis | hdis <;> rw [hdis] at hrem <;> cases hrem
    have heff₁ := hsound.effect (hperm st) hst₁
    exact heff₁.idempotent_iff (heff₁.sound.effect (hperm st₁) hst₂) hdis

/-- One channel on descriptor 3. -/
def sampleChannel : PollerState Unit := ⟨.empty, fun _ => { addr := 8, fd := 3 }, []⟩

theorem sampleChannel_fresh : Fresh sampleChannel :=
  ⟨fun _ _ _ => rfl, fun _ _ _ => rfl, fun _ => rfl, fun _ => rfl, rfl, rfl⟩

theorem nothing_watched_iff_sample :
    ∃ st : PollerState Unit, (st.channel ()).events = kNoneEvent ∧
      (system Unit).Run sampleChannel [((), .enableReading), ((), .disableAll)] st ∧ st.Quiet () := by
  let tr : List (Unit × ChannelCall) := [((), .enableReading), ((), .disableAll)]
  have hval : (Transition.System.follow (fun st l => Watchful st l ∧ Permitted st l)
      (fun st l => (st.perform l).toOption) sampleChannel tr).map
        (fun st => (st.channel ()).events) = some kNoneEvent := by decide
  obtain ⟨st, hst, hnone⟩ := Option.map_eq_some_iff.mp hval
  have hrun : ((system Unit).restrict Watchful).Run sampleChannel tr st := by
    refine .of_follow ?_ hst
    intro s l t hl hperf
    exact ⟨hl.1, hl.2, eq_ok_of_toOption hperf⟩
  have hiff := (nothing_watched_iff sampleChannel_fresh hrun.of_restrict).1
  exact ⟨st, hnone, hrun.of_restrict,
    hiff.mpr hrun tr [] st (List.append_nil tr).symm hrun.of_restrict ()⟩

/-- Disabled twice, the channel is registered with an empty mask. -/
theorem watched_after_disabling_twice :
    ¬∀ st : PollerState Unit, (system Unit).Reachable st → ∀ i, st.Quiet i := by
  intro hall
  let tr : List (Unit × ChannelCall) := [((), .enableReading), ((), .disableAll), ((), .disableAll)]
  have hval : (sampleChannel.after tr).map (fun st => ((st.channel ()).events,
      (st.poller.interest (st.channel ()).fd).isSome)) = some (kNoneEvent, true) := by decide
  obtain ⟨st, hst, hproj⟩ := Option.map_eq_some_iff.mp hval
  simp only [Prod.mk.injEq] at hproj
  obtain ⟨hnone, hsome⟩ := hproj
  have hquiet := hall st ⟨_, tr, sampleChannel_fresh, run_of_after hst⟩ ()
  rw [(hquiet hnone).1] at hsome
  cases hsome

end PollerState

end DamnWebServer
