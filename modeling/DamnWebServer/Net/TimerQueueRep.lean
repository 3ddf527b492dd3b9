import DamnWebServer.Net.TimerQueue

/-!
# What the timer queue represents

`timers_` and `active_timers_` are two indexes of one set of timers: those that
exist and are not *out*, that is, held by the running `handle_read` or by the
caller of `insert`. `Rep q out` says so, and each operation is specified by what
it does to the heap and to `out`; no specified operation can fail an assertion
or touch a deleted timer.
-/

namespace DamnWebServer

theorem Entry.eta (e : Entry) : Entry.mk e.when e.timer = e := rfl

def ActiveTimer.timer (x : ActiveTimer) : Nat := (ofLex x).1

def ActiveTimer.sequence (x : ActiveTimer) : Int := (ofLex x).2

theorem ActiveTimer.eta (x : ActiveTimer) : ActiveTimer.mk x.timer x.sequence = x := rfl

theorem Entry.ext {e f : Entry} (hw : e.when = f.when) (ht : e.timer = f.timer) : e = f := by
  rw [← e.eta, ← f.eta, hw, ht]

theorem ActiveTimer.ext {x y : ActiveTimer} (ht : x.timer = y.timer)
    (hs : x.sequence = y.sequence) : x = y := by
  rw [← x.eta, ← y.eta, ht, hs]

theorem Entry.when_le {e f : Entry} (h : e ≤ f) : e.when ≤ f.when := by
  rw [← e.eta, ← f.eta, Entry.mk, Entry.mk, Prod.Lex.toLex_le_toLex] at h
  rcases h with hlt | ⟨heq, _⟩
  · exact le_of_lt hlt
  · exact le_of_eq heq

/-- The sentry's address is above every timer's, so the cut is at `now` itself. -/
theorem Entry.lt_sentry {e : Entry} {now : Timestamp} (h : e.timer < uintptrMax) :
    e < Entry.mk now uintptrMax ↔ e.when ≤ now := by
  rw [← e.eta, Entry.mk, Entry.mk, Prod.Lex.toLex_lt_toLex]
  change e.when < now ∨ e.when = now ∧ e.timer < uintptrMax ↔ e.when ≤ now
  simp only [h, and_true]
  exact le_iff_lt_or_eq.symm

namespace TimerQueue

def TimersRep (q : TimerQueue) (out : List Nat) : Prop :=
  ∀ e : Entry, e ∈ q.timers ↔
    ∃ t, q.heap e.timer = some t ∧ e.timer ∉ out ∧ t.expiration = e.when

def ActiveRep (q : TimerQueue) (out : List Nat) : Prop :=
  ∀ x : ActiveTimer, x ∈ q.activeTimers ↔
    ∃ t, q.heap x.timer = some t ∧ x.timer ∉ out ∧ t.sequence = x.sequence

structure Rep (q : TimerQueue) (out : List Nat) : Prop where
  timers : q.TimersRep out
  active : q.ActiveRep out
  live : ∀ a ∈ out, ∃ t, q.heap a = some t
  nodup : out.Nodup
  bound : ∀ a t, q.heap a = some t → a < uintptrMax

variable {q : TimerQueue} {out : List Nat} {a : Nat} {t : Timer}

theorem size_eq (ht : q.TimersRep out) (ha : q.ActiveRep out) :
    q.timers.size = q.activeTimers.size := by
  refine OrderedSet.size_eq_of_images (f := Entry.timer) (g := ActiveTimer.timer) ?_ ?_ ?_
  · intro e he f hf heq
    obtain ⟨t, hte, _, hwe⟩ := (ht e).mp he
    obtain ⟨u, htf, _, hwf⟩ := (ht f).mp hf
    rw [heq, htf] at hte
    cases hte
    exact Entry.ext (hwe.symm.trans hwf) heq
  · intro x hx y hy heq
    obtain ⟨t, htx, _, hsx⟩ := (ha x).mp hx
    obtain ⟨u, hty, _, hsy⟩ := (ha y).mp hy
    rw [heq, hty] at htx
    cases htx
    exact ActiveTimer.ext heq (hsx.symm.trans hsy)
  · intro a
    constructor
    · rintro ⟨e, he, rfl⟩
      obtain ⟨t, hheap, hno, _⟩ := (ht e).mp he
      exact ⟨.mk e.timer t.sequence, (ha _).mpr ⟨t, hheap, hno, rfl⟩, rfl⟩
    · rintro ⟨x, hx, rfl⟩
      obtain ⟨t, hheap, hno, _⟩ := (ha x).mp hx
      exact ⟨.mk t.expiration x.timer, (ht _).mpr ⟨t, hheap, hno, rfl⟩, rfl⟩

theorem requireSizes_ok (ht : q.TimersRep out) (ha : q.ActiveRep out) :
    q.requireSizes = .ok () := by
  rw [requireSizes, decide_eq_true (size_eq ht ha)]
  rfl

theorem deref_ok (h : q.heap a = some t) : q.deref a = .ok t := by
  rw [deref, h]

theorem Rep.perm (h : q.Rep out) {out' : List Nat} (hperm : out.Perm out') : q.Rep out' where
  timers e := by
    rw [h.timers e]
    simp only [hperm.mem_iff]
  active x := by
    rw [h.active x]
    simp only [hperm.mem_iff]
  live a ha := h.live a (hperm.mem_iff.mpr ha)
  nodup := hperm.nodup_iff.mp h.nodup
  bound := h.bound

/-- A timer that is out goes into both sets. -/
theorem insert_spec (h : q.Rep (a :: out)) (ht : q.heap a = some t) :
    ∃ ts as, q.insert a =
        .ok ({ q with timers := ts, activeTimers := as }, q.earliest t.expiration) ∧
      Rep { q with timers := ts, activeTimers := as } out := by
  have hno := List.nodup_cons.mp h.nodup
  have hnew : Entry.mk t.expiration a ∉ q.timers := by
    intro hmem
    obtain ⟨_, _, hout, _⟩ := (h.timers _).mp hmem
    exact hout List.mem_cons_self
  have hnew' : ActiveTimer.mk a t.sequence ∉ q.activeTimers := by
    intro hmem
    obtain ⟨_, _, hout, _⟩ := (h.active _).mp hmem
    exact hout List.mem_cons_self
  have hrep : Rep { q with
      timers := (q.timers.insert (.mk t.expiration a)).1
      activeTimers := (q.activeTimers.insert (.mk a t.sequence)).1 } out := by
    refine ⟨?_, ?_, fun b hb => h.live b (List.mem_cons_of_mem a hb), hno.2, h.bound⟩
    · intro e
      rw [OrderedSet.mem_insert, h.timers e]
      constructor
      · rintro (rfl | ⟨u, hu, hout, hw⟩)
        · exact ⟨t, ht, hno.1, rfl⟩
        · exact ⟨u, hu, fun hin => hout (List.mem_cons_of_mem a hin), hw⟩
      · rintro ⟨u, hu, hout, hw⟩
        by_cases hea : e.timer = a
        · have hut : u = t := Option.some.inj (hu.symm.trans (by rw [← ht, hea]))
          subst hut
          exact Or.inl (Entry.ext hw.symm hea)
        · exact Or.inr ⟨u, hu, List.not_mem_cons_of_ne_of_not_mem hea hout, hw⟩
    · intro x
      rw [OrderedSet.mem_insert, h.active x]
      constructor
      · rintro (rfl | ⟨u, hu, hout, hs⟩)
        · exact ⟨t, ht, hno.1, rfl⟩
        · exact ⟨u, hu, fun hin => hout (List.mem_cons_of_mem a hin), hs⟩
      · rintro ⟨u, hu, hout, hs⟩
        by_cases hxa : x.timer = a
        · have hut : u = t := Option.some.inj (hu.symm.trans (by rw [← ht, hxa]))
          subst hut
          exact Or.inl (ActiveTimer.ext hxa hs.symm)
        · exact Or.inr ⟨u, hu, List.not_mem_cons_of_ne_of_not_mem hxa hout, hs⟩
  refine ⟨_, _, ?_, hrep⟩
  simp only [insert, requireSizes_ok h.timers h.active, deref_ok ht, OrderedSet.insert_new hnew,
    OrderedSet.insert_new hnew', require_true, requireSizes_ok hrep.timers hrep.active, bind,
    Except.bind]
  rfl

/-- What `add_timer_in_loop` asks of the timerfd. -/
def armingFor (q : TimerQueue) (expiration clock : Timestamp) : List TimerfdCall :=
  if q.earliest expiration then [.settime clock (howMuchTimeFromNow expiration clock)] else []

theorem addTimerInLoop_spec (h : q.Rep (a :: out)) (ht : q.heap a = some t) (clock : Timestamp) :
    ∃ ts as, q.addTimerInLoop a clock = .ok { q with
        timers := ts, activeTimers := as
        timerfd := q.timerfd ++ q.armingFor t.expiration clock } ∧
      Rep { q with
        timers := ts, activeTimers := as
        timerfd := q.timerfd ++ q.armingFor t.expiration clock } out := by
  obtain ⟨ts, as, hins, hrep⟩ := insert_spec h ht
  refine ⟨ts, as, ?_, hrep.timers, hrep.active, hrep.live, hrep.nodup, hrep.bound⟩
  have hderef : deref { q with timers := ts, activeTimers := as } a = .ok t := deref_ok ht
  by_cases he : q.earliest t.expiration = true
  · simp only [addTimerInLoop, hins, bind, Except.bind, if_pos he, hderef, armingFor]
    rfl
  · simp only [addTimerInLoop, hins, bind, Except.bind, if_neg he, armingFor, List.append_nil]
    rfl

/-- The timers that `get_expired` has moved out leave `active_timers_` too. -/
theorem eraseActive_spec {es : List Entry} {gone : List Nat}
    (h : q.ActiveRep gone) (hnodup : (gone ++ es.map Entry.timer).Nodup)
    (hlive : ∀ e ∈ es, ∃ t, q.heap e.timer = some t) :
    ∃ as, q.eraseActive es = .ok { q with activeTimers := as } ∧
      ActiveRep { q with activeTimers := as } (gone ++ es.map Entry.timer) := by
  induction es generalizing q gone with
  | nil =>
    refine ⟨q.activeTimers, rfl, ?_⟩
    rw [List.map_nil, List.append_nil]
    exact h
  | cons e es ih =>
    obtain ⟨t, ht⟩ := hlive e List.mem_cons_self
    rw [List.map_cons, List.append_cons] at hnodup ⊢
    have hfresh : e.timer ∉ gone := by
      have hpre := (List.nodup_append.mp hnodup).1
      intro hmem
      exact (List.nodup_append.mp hpre).2.2 _ hmem _ (List.mem_singleton_self _) rfl
    have hmem : ActiveTimer.mk e.timer t.sequence ∈ q.activeTimers :=
      (h _).mpr ⟨t, ht, hfresh, rfl⟩
    have hstep : ActiveRep { q with
        activeTimers := (q.activeTimers.erase (.mk e.timer t.sequence)).1 }
        (gone ++ [e.timer]) := by
      intro x
      rw [OrderedSet.mem_erase, h x, List.mem_append, List.mem_singleton, not_or]
      constructor
      · rintro ⟨hne, u, hu, hno, hs⟩
        refine ⟨u, hu, ⟨hno, fun hxe => hne (ActiveTimer.ext hxe ?_)⟩, hs⟩
        have hut : u = t := Option.some.inj (hu.symm.trans (by rw [hxe, ht]))
        rw [← hs, hut]
        rfl
      · rintro ⟨u, hu, ⟨hno, hne⟩, hs⟩
        exact ⟨fun hx => hne (congrArg ActiveTimer.timer hx), u, hu, hno, hs⟩
    obtain ⟨as, hok, hrep⟩ := ih hstep hnodup fun f hf => hlive f (List.mem_cons_of_mem e hf)
    refine ⟨as, ?_, hrep⟩
    simp only [eraseActive, deref_ok ht, OrderedSet.erase_count hmem, bind, Except.bind]
    exact hok

/-- The entries that are due at `now`, in the order of the set. -/
def due (q : TimerQueue) (now : Timestamp) : List Entry := q.timers.below (.mk now uintptrMax)

theorem mem_due (h : q.Rep out) {now : Timestamp} {e : Entry} :
    e ∈ q.due now ↔ e ∈ q.timers ∧ e.when ≤ now := by
  rw [due, OrderedSet.mem_below]
  refine and_congr_right fun hmem => ?_
  obtain ⟨t, ht, _, _⟩ := (h.timers e).mp hmem
  exact Entry.lt_sentry (h.bound _ _ ht)

theorem mem_later (h : q.Rep out) {now : Timestamp} {e : Entry} :
    e ∈ q.timers.above (.mk now uintptrMax) ↔ e ∈ q.timers ∧ now < e.when := by
  rw [OrderedSet.mem_above]
  refine and_congr_right fun hmem => ?_
  obtain ⟨t, ht, _, _⟩ := (h.timers e).mp hmem
  rw [← not_lt, Entry.lt_sentry (h.bound _ _ ht), not_le]

theorem due_timer_nodup (h : q.Rep out) (now : Timestamp) :
    ((q.due now).map Entry.timer).Nodup := by
  have hsorted : (q.due now).Nodup := (q.timers.below_sorted _).imp ne_of_lt
  rw [List.nodup_map_iff_inj_on hsorted]
  intro e he f hf heq
  obtain ⟨t, hte, _, hwe⟩ := (h.timers e).mp (mem_due h |>.mp he).1
  obtain ⟨u, htf, _, hwf⟩ := (h.timers f).mp (mem_due h |>.mp hf).1
  rw [heq, htf] at hte
  cases hte
  exact Entry.ext (hwe.symm.trans hwf) heq

/-- In the order they will run: by expiration. -/
theorem due_ordered (q : TimerQueue) (now : Timestamp) :
    (q.due now).Pairwise fun e f => e.when ≤ f.when := by
  exact (q.timers.below_sorted (.mk now uintptrMax)).imp fun hlt => Entry.when_le (le_of_lt hlt)

/-- `get_expired` moves out the timers that are due, and no others. -/
theorem getExpired_spec (h : q.Rep out) (now : Timestamp) :
    ∃ as, q.getExpired now = .ok ({ q with
        timers := q.timers.above (.mk now uintptrMax), activeTimers := as }, q.due now) ∧
      Rep { q with timers := q.timers.above (.mk now uintptrMax), activeTimers := as }
        ((q.due now).map Entry.timer ++ out) := by
  have hwaits : ∀ e ∈ q.due now, ∃ t, q.heap e.timer = some t ∧ e.timer ∉ out ∧
      t.expiration = e.when := fun e he => (h.timers e).mp (mem_due h |>.mp he).1
  have hlive : ∀ e ∈ q.due now, ∃ t, q.heap e.timer = some t := by
    intro e he
    obtain ⟨t, ht, _, _⟩ := hwaits e he
    exact ⟨t, ht⟩
  have hnodup : (out ++ (q.due now).map Entry.timer).Nodup := by
    refine List.nodup_append.mpr ⟨h.nodup, due_timer_nodup h now, ?_⟩
    rintro a ha b hb rfl
    obtain ⟨e, he, rfl⟩ := List.mem_map.mp hb
    obtain ⟨_, _, hno, _⟩ := hwaits e he
    exact hno ha
  have hfirst : ((q.timers.above (.mk now uintptrMax)).first.all fun e => now < e.when) = true := by
    rw [Option.all_eq_true]
    intro e he
    exact decide_eq_true (mem_later h |>.mp (OrderedSet.first_mem he)).2
  obtain ⟨as, hok, hactive⟩ := eraseActive_spec
    (q := { q with timers := q.timers.above (.mk now uintptrMax) }) h.active hnodup hlive
  have htimers : TimersRep { q with
      timers := q.timers.above (.mk now uintptrMax), activeTimers := as }
      (out ++ (q.due now).map Entry.timer) := by
    intro e
    rw [mem_later h, h.timers e]
    constructor
    · rintro ⟨⟨t, ht, hno, hw⟩, hlater⟩
      refine ⟨t, ht, ?_, hw⟩
      rw [List.mem_append, not_or]
      refine ⟨hno, fun hmem => ?_⟩
      obtain ⟨f, hf, hfe⟩ := List.mem_map.mp hmem
      obtain ⟨u, hu, _, hwf⟩ := hwaits f hf
      rw [hfe, ht] at hu
      cases hu
      have hle := (mem_due h |>.mp hf).2
      rw [← hwf, hw] at hle
      exact absurd hlater (not_lt.mpr hle)
    · rintro ⟨t, ht, hno, hw⟩
      rw [List.mem_append, not_or] at hno
      have hmem : e ∈ q.timers := (h.timers e).mpr ⟨t, ht, hno.1, hw⟩
      refine ⟨⟨t, ht, hno.1, hw⟩, ?_⟩
      by_contra hle
      exact hno.2 (List.mem_map_of_mem ((mem_due h).mpr ⟨hmem, not_lt.mp hle⟩))
  have hrep : Rep { q with
      timers := q.timers.above (.mk now uintptrMax), activeTimers := as }
      (out ++ (q.due now).map Entry.timer) := by
    refine ⟨htimers, hactive, ?_, hnodup, h.bound⟩
    intro a ha
    rcases List.mem_append.mp ha with ha | ha
    · exact h.live a ha
    · obtain ⟨e, he, rfl⟩ := List.mem_map.mp ha
      exact hlive e he
  refine ⟨as, ?_, hrep.perm List.perm_append_comm⟩
  have hsizes := requireSizes_ok htimers hactive
  simp only [due] at hok hsizes
  simp only [getExpired, requireSizes_ok h.timers h.active, hfirst, require_true, bind,
    Except.bind, hok, hsizes]
  rfl

/-- The heap after `delete`. -/
def remove (q : TimerQueue) (a : Nat) (t : Timer) : TimerQueue :=
  { q with heap := Function.update q.heap a none, deleted := q.deleted ++ [t.sequence] }

theorem delete_ok (h : q.heap a = some t) : q.delete a = .ok (q.remove a t) := by
  simp only [delete, deref_ok h, bind, Except.bind]
  rfl

theorem heap_update_of_ne {x : Option Timer} {b : Nat} (h : b ≠ a) :
    Function.update q.heap a x b = q.heap b := Function.update_of_ne h x q.heap

theorem heap_remove_eq_some {b : Nat} {u : Timer} :
    Function.update q.heap a none b = some u ↔ b ≠ a ∧ q.heap b = some u := by
  by_cases hb : b = a
  · subst hb
    simp
  · simp [hb]

/-- Deleting a timer that is out. -/
theorem Rep.remove_out (h : q.Rep (a :: out)) : (q.remove a t).Rep out := by
  have hno := List.nodup_cons.mp h.nodup
  -- the addresses in use and not out are the same before and after
  have hsame : ∀ b (P : Timer → Prop), (∃ u, q.heap b = some u ∧ b ∉ a :: out ∧ P u) ↔
      ∃ u, Function.update q.heap a none b = some u ∧ b ∉ out ∧ P u := by
    intro b P
    constructor
    · rintro ⟨u, hu, hout, hp⟩
      rw [List.mem_cons, not_or] at hout
      exact ⟨u, heap_remove_eq_some.mpr ⟨hout.1, hu⟩, hout.2, hp⟩
    · rintro ⟨u, hu, hout, hp⟩
      obtain ⟨hne, hu⟩ := heap_remove_eq_some.mp hu
      exact ⟨u, hu, List.not_mem_cons_of_ne_of_not_mem hne hout, hp⟩
  refine ⟨fun e => (h.timers e).trans (hsame _ _), fun x => (h.active x).trans (hsame _ _), ?_,
    hno.2, fun b u hu => h.bound b u (heap_remove_eq_some.mp hu).2⟩
  intro b hb
  obtain ⟨u, hu⟩ := h.live b (List.mem_cons_of_mem a hb)
  refine ⟨u, heap_remove_eq_some.mpr ⟨?_, hu⟩⟩
  rintro rfl
  exact hno.1 hb

/-- A timer that is out may be changed. -/
theorem Rep.store_out (h : q.Rep (a :: out)) : (q.store a t).Rep (a :: out) := by
  have hother : ∀ b, b ∉ a :: out → Function.update q.heap a (some t) b = q.heap b := by
    intro b hb
    rw [List.mem_cons, not_or] at hb
    exact heap_update_of_ne hb.1
  have hsame : ∀ b (P : Timer → Prop), (∃ u, q.heap b = some u ∧ b ∉ a :: out ∧ P u) ↔
      ∃ u, Function.update q.heap a (some t) b = some u ∧ b ∉ a :: out ∧ P u := by
    intro b P
    refine exists_congr fun u => ?_
    by_cases hb : b ∈ a :: out
    · simp [hb]
    · rw [hother b hb]
  refine ⟨fun e => (h.timers e).trans (hsame _ _), fun x => (h.active x).trans (hsame _ _), ?_,
    h.nodup, ?_⟩
  · intro b hb
    by_cases hba : b = a
    · subst hba
      exact ⟨t, Function.update_self b _ _⟩
    · obtain ⟨u, hu⟩ := h.live b hb
      exact ⟨u, (heap_update_of_ne hba).trans hu⟩
  · intro b u hu
    by_cases hba : b = a
    · subst hba
      obtain ⟨v, hv⟩ := h.live b List.mem_cons_self
      exact h.bound b v hv
    · exact h.bound b u ((heap_update_of_ne hba).symm.trans hu)

/-- A new timer, before it is inserted. -/
theorem Rep.store_new (h : q.Rep out) (hnew : q.heap a = none) (hbound : a < uintptrMax) :
    (q.store a t).Rep (a :: out) := by
  have hother : ∀ b u, q.heap b = some u → Function.update q.heap a (some t) b = some u := by
    intro b u hu
    refine (heap_update_of_ne ?_).trans hu
    rintro rfl
    rw [hnew] at hu
    cases hu
  have hsame : ∀ b (P : Timer → Prop), (∃ u, q.heap b = some u ∧ b ∉ out ∧ P u) ↔
      ∃ u, Function.update q.heap a (some t) b = some u ∧ b ∉ a :: out ∧ P u := by
    intro b P
    constructor
    · rintro ⟨u, hu, hout, hp⟩
      refine ⟨u, hother b u hu, List.not_mem_cons_of_ne_of_not_mem ?_ hout, hp⟩
      rintro rfl
      rw [hnew] at hu
      cases hu
    · rintro ⟨u, hu, hout, hp⟩
      rw [List.mem_cons, not_or] at hout
      exact ⟨u, (heap_update_of_ne hout.1).symm.trans hu, hout.2, hp⟩
  refine ⟨fun e => (h.timers e).trans (hsame _ _), fun x => (h.active x).trans (hsame _ _), ?_,
    List.nodup_cons.mpr ⟨?_, h.nodup⟩, ?_⟩
  · intro b hb
    rcases List.mem_cons.mp hb with rfl | hb
    · exact ⟨t, Function.update_self b _ _⟩
    · obtain ⟨u, hu⟩ := h.live b hb
      exact ⟨u, hother b u hu⟩
  · intro hmem
    obtain ⟨u, hu⟩ := h.live a hmem
    rw [hnew] at hu
    cases hu
  · intro b u hu
    by_cases hba : b = a
    · subst hba
      exact hbound
    · exact h.bound b u ((heap_update_of_ne hba).symm.trans hu)

/-- `cancel_in_loop` of a waiting timer deletes it and drops it from both sets. -/
theorem cancelInLoop_found (h : q.Rep out) {id : TimerID} (ht : q.heap id.timer = some t)
    (hno : id.timer ∉ out) (hseq : t.sequence = id.sequence) :
    ∃ ts as, q.cancelInLoop id =
        .ok { q.remove id.timer t with timers := ts, activeTimers := as } ∧
      Rep { q.remove id.timer t with timers := ts, activeTimers := as } out := by
  have hmem : ActiveTimer.mk id.timer id.sequence ∈ q.activeTimers :=
    (h.active _).mpr ⟨t, ht, hno, hseq⟩
  have hmem' : Entry.mk t.expiration id.timer ∈ q.timers := (h.timers _).mpr ⟨t, ht, hno, rfl⟩
  have hrep : Rep { q.remove id.timer t with
      timers := (q.timers.erase (.mk t.expiration id.timer)).1
      activeTimers := (q.activeTimers.erase (.mk id.timer id.sequence)).1 } out := by
    refine ⟨?_, ?_, ?_, h.nodup, fun b u hu => h.bound b u (heap_remove_eq_some.mp hu).2⟩
    · intro e
      rw [OrderedSet.mem_erase, h.timers e]
      constructor
      · rintro ⟨hne, u, hu, hout, hw⟩
        refine ⟨u, heap_remove_eq_some.mpr ⟨fun hea => hne (Entry.ext ?_ hea), hu⟩, hout, hw⟩
        have hut : u = t := Option.some.inj (hu.symm.trans (by rw [hea, ht]))
        rw [← hw, hut]
        rfl
      · rintro ⟨u, hu, hout, hw⟩
        obtain ⟨hne, hu⟩ := heap_remove_eq_some.mp hu
        exact ⟨fun he => hne (congrArg Entry.timer he), u, hu, hout, hw⟩
    · intro x
      rw [OrderedSet.mem_erase, h.active x]
      constructor
      · rintro ⟨hne, u, hu, hout, hs⟩
        refine ⟨u, heap_remove_eq_some.mpr ⟨fun hxa => hne (ActiveTimer.ext hxa ?_), hu⟩, hout, hs⟩
        have hut : u = t := Option.some.inj (hu.symm.trans (by rw [hxa, ht]))
        rw [← hs, hut, hseq]
        rfl
      · rintro ⟨u, hu, hout, hs⟩
        obtain ⟨hne, hu⟩ := heap_remove_eq_some.mp hu
        exact ⟨fun hx => hne (congrArg ActiveTimer.timer hx), u, hu, hout, hs⟩
    · intro b hb
      obtain ⟨u, hu⟩ := h.live b hb
      refine ⟨u, heap_remove_eq_some.mpr ⟨?_, hu⟩⟩
      rintro rfl
      exact hno hb
  refine ⟨_, _, ?_, hrep⟩
  have hdelete := delete_ok
    (q := { q with timers := (q.timers.erase (.mk t.expiration id.timer)).1 }) ht
  have hsizes := requireSizes_ok hrep.timers hrep.active
  simp only [remove] at hdelete hsizes ⊢
  simp only [cancelInLoop, cancelFound, requireSizes_ok h.timers h.active, if_pos hmem,
    deref_ok ht, OrderedSet.erase_count hmem', bind, Except.bind, hdelete]
  simp only [pure, Except.pure, decide_true, require_true, hsizes]

/-- `cancel_in_loop` of anything else is remembered while callbacks run. -/
theorem cancelInLoop_unknown (h : q.Rep out) (id : TimerID)
    (hno : ∀ t, q.heap id.timer = some t → id.timer ∉ out → t.sequence ≠ id.sequence) :
    q.cancelInLoop id = .ok { q with cancelingTimers :=
      if q.callingExpiredTimers then (q.cancelingTimers.insert (.mk id.timer id.sequence)).1
      else q.cancelingTimers } := by
  have hmem : ActiveTimer.mk id.timer id.sequence ∉ q.activeTimers := by
    intro hin
    obtain ⟨t, ht, hout, hs⟩ := (h.active _).mp hin
    exact hno t ht hout hs
  have hsizes := requireSizes_ok h.timers h.active
  by_cases hcall : q.callingExpiredTimers = true
  · have hsizes' : requireSizes { q with cancelingTimers :=
        (q.cancelingTimers.insert (.mk id.timer id.sequence)).1 } = .ok () := hsizes
    simp only [cancelInLoop, cancelFound, hsizes, if_neg hmem, if_pos hcall, hsizes', bind,
      Except.bind]
    rfl
  · simp only [cancelInLoop, cancelFound, hsizes, if_neg hmem, if_neg hcall, bind, Except.bind]
    rfl

/-- No timer is deleted twice: the sequences of the live timers and of the deleted
    ones are all different, and were all issued. -/
structure Ledger (q : TimerQueue) (issued : List Int) : Prop where
  once : q.deleted.Nodup
  gone : ∀ a t, q.heap a = some t → t.sequence ∉ q.deleted
  unique : ∀ a b t u, q.heap a = some t → q.heap b = some u → t.sequence = u.sequence → a = b
  live : ∀ a t, q.heap a = some t → t.sequence ∈ issued
  dead : ∀ n ∈ q.deleted, n ∈ issued

variable {issued : List Int}

/-- The ledger is about the heap and the deletions only. -/
theorem Ledger.congr (h : q.Ledger issued) {r : TimerQueue} (hheap : r.heap = q.heap)
    (hdel : r.deleted = q.deleted) : r.Ledger issued := by
  refine ⟨?_, ?_, ?_, ?_, ?_⟩
  · rw [hdel]
    exact h.once
  · rw [hheap, hdel]
    exact h.gone
  · rw [hheap]
    exact h.unique
  · rw [hheap]
    exact h.live
  · rw [hdel]
    exact h.dead

theorem Ledger.remove (h : q.Ledger issued) (ht : q.heap a = some t) :
    (q.remove a t).Ledger issued := by
  refine ⟨?_, ?_, ?_, ?_, ?_⟩
  · refine List.nodup_append.mpr ⟨h.once, List.nodup_singleton _, ?_⟩
    intro n hn m hm
    rw [List.mem_singleton] at hm
    subst hm
    rintro rfl
    exact h.gone a t ht hn
  · intro b u hu
    obtain ⟨hne, hu⟩ := heap_remove_eq_some.mp hu
    intro hmem
    rcases List.mem_append.mp hmem with hmem | hmem
    · exact h.gone b u hu hmem
    · exact hne (h.unique b a u t hu ht (List.mem_singleton.mp hmem))
  · intro b c u v hu hv heq
    exact h.unique b c u v (heap_remove_eq_some.mp hu).2 (heap_remove_eq_some.mp hv).2 heq
  · intro b u hu
    exact h.live b u (heap_remove_eq_some.mp hu).2
  · intro n hn
    rcases List.mem_append.mp hn with hn | hn
    · exact h.dead n hn
    · rw [List.mem_singleton.mp hn]
      exact h.live a t ht

/-- A timer whose sequence is of no other timer may be written to an address. -/
theorem Ledger.store (h : q.Ledger issued) (hissued : t.sequence ∈ issued)
    (hgone : t.sequence ∉ q.deleted)
    (hother : ∀ b u, q.heap b = some u → u.sequence = t.sequence → b = a) :
    (q.store a t).Ledger issued := by
  have hcases : ∀ b u, Function.update q.heap a (some t) b = some u →
      b = a ∧ u = t ∨ b ≠ a ∧ q.heap b = some u := by
    intro b u hu
    by_cases hba : b = a
    · subst hba
      rw [Function.update_self] at hu
      exact Or.inl ⟨rfl, (Option.some.inj hu).symm⟩
    · exact Or.inr ⟨hba, (heap_update_of_ne hba).symm.trans hu⟩
  refine ⟨h.once, ?_, ?_, ?_, h.dead⟩
  · intro b u hu
    rcases hcases b u hu with ⟨_, rfl⟩ | ⟨_, hu⟩
    · exact hgone
    · exact h.gone b u hu
  · intro b c u v hu hv heq
    rcases hcases b u hu with ⟨rfl, rfl⟩ | ⟨_, hu'⟩ <;>
      rcases hcases c v hv with ⟨rfl, rfl⟩ | ⟨_, hv'⟩
    · rfl
    · exact (hother c v hv' heq.symm).symm
    · exact hother b u hu' heq
    · exact h.unique b c u v hu' hv' heq
  · intro b u hu
    rcases hcases b u hu with ⟨_, rfl⟩ | ⟨_, hu⟩
    · exact hissued
    · exact h.live b u hu

/-- The expired timers that go back into the queue. -/
def Kept (q : TimerQueue) (a : Nat) (t : Timer) : Prop :=
  t.repeats = true ∧ ActiveTimer.mk a t.sequence ∉ q.cancelingTimers

instance (q : TimerQueue) (a : Nat) (t : Timer) : Decidable (q.Kept a t) :=
  inferInstanceAs (Decidable (_ ∧ _))

/-- The timers after `reset`: the kept ones restarted, the other expired ones
    gone. -/
def heapAfter (q : TimerQueue) (now : Timestamp) (expired : List Nat) (a : Nat) : Option Timer :=
  if a ∈ expired then
    (q.heap a).bind fun t => if q.Kept a t then some (t.restart now) else none
  else q.heap a

theorem heapAfter_cons (now : Timestamp) {r : TimerQueue} {x : Option Timer}
    (hno : a ∉ out) (hheap : r.heap = Function.update q.heap a x)
    (hcancel : r.cancelingTimers = q.cancelingTimers)
    (hx : x = (q.heap a).bind fun t => if q.Kept a t then some (t.restart now) else none) :
    r.heapAfter now out = q.heapAfter now (a :: out) := by
  funext b
  have hkept : ∀ t, r.Kept b t ↔ q.Kept b t := by
    intro t
    rw [Kept, Kept, hcancel]
  by_cases hba : b = a
  · subst hba
    rw [heapAfter, if_neg hno, heapAfter, if_pos List.mem_cons_self, hheap,
      Function.update_self, hx]
  · have hheap' : r.heap b = q.heap b := by
      rw [hheap]
      exact heap_update_of_ne hba
    simp only [heapAfter, hheap', hkept, List.mem_cons, hba, false_or]

/-- The loop of `reset` takes every expired timer back or deletes it. -/
theorem resetEntries_spec {es : List Entry} (now : Timestamp)
    (h : q.Rep (es.map Entry.timer ++ out)) (hl : q.Ledger issued) :
    ∃ ts as dl, q.resetEntries now es = .ok { q with
        heap := q.heapAfter now (es.map Entry.timer)
        timers := ts, activeTimers := as, deleted := dl } ∧
      Rep { q with
        heap := q.heapAfter now (es.map Entry.timer)
        timers := ts, activeTimers := as, deleted := dl } out ∧
      Ledger { q with
        heap := q.heapAfter now (es.map Entry.timer)
        timers := ts, activeTimers := as, deleted := dl } issued := by
  induction es generalizing q with
  | nil =>
    have hsame : q.heapAfter now [] = q.heap := by
      funext b
      rw [heapAfter, if_neg List.not_mem_nil]
    refine ⟨q.timers, q.activeTimers, q.deleted, ?_⟩
    rw [List.map_nil, hsame]
    exact ⟨rfl, h, hl⟩
  | cons e es ih =>
    rw [List.map_cons] at h ⊢
    rw [List.cons_append] at h
    have hno : e.timer ∉ es.map Entry.timer := fun hmem =>
      (List.nodup_cons.mp h.nodup).1 (List.mem_append_left _ hmem)
    obtain ⟨t, ht⟩ := h.live e.timer List.mem_cons_self
    by_cases hkeep : q.Kept e.timer t
    · -- restarted and inserted under its new key
      have hself : (q.store e.timer (t.restart now)).heap e.timer = some (t.restart now) :=
        Function.update_self _ _ _
      obtain ⟨ts, as, hins, hrep⟩ := insert_spec (h.store_out (t := t.restart now)) hself
      have hled : Ledger (q.store e.timer (t.restart now)) issued :=
        hl.store (hl.live e.timer t ht) (hl.gone e.timer t ht) fun b u hu heq => hl.unique b e.timer u t hu ht heq
      obtain ⟨ts', as', dl, hok, hrep', hled'⟩ := ih hrep (hled.congr rfl rfl)
      have hheap := heapAfter_cons (q := q) now (r := { q.store e.timer (t.restart now)
        with timers := ts, activeTimers := as }) hno rfl rfl (by rw [ht]; exact (if_pos hkeep).symm)
      rw [hheap] at hok hrep' hled'
      refine ⟨ts', as', dl, ?_, hrep', hled'⟩
      simp only [resetEntries, deref_ok ht, bind, Except.bind, hins]
      exact (if_pos hkeep).trans hok
    · have hled : Ledger (q.remove e.timer t) issued := hl.remove ht
      obtain ⟨ts', as', dl, hok, hrep', hled'⟩ := ih (h.remove_out (t := t)) hled
      have hheap := heapAfter_cons (q := q) now (r := q.remove e.timer t) hno rfl rfl
        (by rw [ht]; exact (if_neg hkeep).symm)
      rw [hheap] at hok hrep' hled'
      refine ⟨ts', as', dl, ?_, hrep', hled'⟩
      simp only [resetEntries, deref_ok ht, bind, Except.bind, delete_ok ht]
      exact (if_neg hkeep).trans hok

/-- What the end of `reset` asks of the timerfd. -/
def rearming (q : TimerQueue) (clock : Timestamp) : List TimerfdCall :=
  match q.timers.first with
  | none => []
  | some e =>
    if Timestamp.valid e.when then [.settime clock (howMuchTimeFromNow e.when clock)] else []

theorem endRead_spec {es : List Entry} (now clock : Timestamp)
    (h : q.Rep (es.map Entry.timer ++ out)) (hl : q.Ledger issued) :
    ∃ q', q.endRead es now clock = .ok q' ∧ q'.Rep out ∧ q'.Ledger issued ∧
      q'.heap = q.heapAfter now (es.map Entry.timer) ∧ q'.callingExpiredTimers = false ∧
      q'.timerfd = q.timerfd ++ q'.rearming clock := by
  obtain ⟨ts, as, dl, hok, hrep, hled⟩ := resetEntries_spec
    (q := { q with callingExpiredTimers := false }) now
    ⟨h.timers, h.active, h.live, h.nodup, h.bound⟩ (hl.congr rfl rfl)
  simp only [endRead, reset, hok, bind, Except.bind]
  cases hfirst : ts.first with
  | none =>
    refine ⟨_, rfl, hrep, hled, rfl, rfl, ?_⟩
    simp [rearming, hfirst]
  | some e =>
    obtain ⟨t, ht, _, hwhen⟩ := (hrep.timers e).mp (OrderedSet.first_mem hfirst)
    simp only [deref_ok ht]
    split
    · rename_i hvalid
      refine ⟨_, rfl, ⟨hrep.timers, hrep.active, hrep.live, hrep.nodup, hrep.bound⟩,
        hled.congr rfl rfl, rfl, rfl, ?_⟩
      rw [hwhen] at hvalid ⊢
      simp [rearming, resetTimerfd, hfirst, hvalid]
    · rename_i hvalid
      refine ⟨_, rfl, hrep, hled, rfl, rfl, ?_⟩
      rw [hwhen] at hvalid
      simp [rearming, hfirst, hvalid]

theorem beginRead_spec (h : q.Rep out) (now : Timestamp) :
    ∃ q', q.beginRead now = .ok (q', q.due now) ∧ q'.Rep ((q.due now).map Entry.timer ++ out) ∧
      q'.heap = q.heap ∧ q'.deleted = q.deleted ∧ q'.cancelingTimers = .empty ∧
      q'.callingExpiredTimers = true ∧ q'.timerfd = q.timerfd ++ [.read] := by
  obtain ⟨as, hok, hrep⟩ := getExpired_spec
    (q := { q with timerfd := q.timerfd ++ [.read] })
    ⟨h.timers, h.active, h.live, h.nodup, h.bound⟩ now
  refine ⟨{ q with
    timerfd := q.timerfd ++ [.read], timers := q.timers.above (.mk now uintptrMax)
    activeTimers := as, callingExpiredTimers := true, cancelingTimers := .empty }, ?_,
    ⟨hrep.timers, hrep.active, hrep.live, hrep.nodup, hrep.bound⟩, rfl, rfl, rfl, rfl, rfl⟩
  simp only [beginRead, hok, bind, Except.bind]
  rfl

end TimerQueue

end DamnWebServer
