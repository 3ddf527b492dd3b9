import DamnWebServer.Net.ServerStages

/-!
# The invariant of the server

Every connection is at a stage, descriptors and names are not shared, and a
poller knows the connections of its loop only. Accepting a connection and
polling keep this; so does a step on one connection that leads to a stage.
-/

namespace DamnWebServer

theorem connName_injective (name : String) {a b : Nat} (h : connName name a = connName name b) :
    a = b := by
  have hrepr : a.repr = b.repr := by
    have hlist := congrArg String.toList h
    simp only [connName, String.toList_append] at hlist
    exact String.toList_injective (List.append_cancel_left (List.append_cancel_left hlist))
  have hdigits : Nat.toDigits 10 a = Nat.toDigits 10 b := by
    rw [← Nat.toList_repr, ← Nat.toList_repr, hrepr]
  rw [← Nat.ofDigitChars_ten_toDigits (n := a), hdigits, Nat.ofDigitChars_ten_toDigits]

namespace ServerState

variable {w w' : ServerState} {c d l : Nat} {st st' : Stage}

structure Inv (w : ServerState) : Prop where
  stage : ∀ c, c < w.accepted → ∃ st, w.At c st
  later : ∀ c, w.accepted ≤ c →
    Queues.Holds w.tasks (ServerTask.drives c) 0 [] ∧ history c w.log = []
  fds : ∀ c d, c < w.accepted → d < w.accepted →
    (w.conns c).conn.channel.fd = (w.conns d).conn.channel.fd → c = d
  /-- A poller knows nothing of the other descriptors. -/
  unknown : ∀ l fd,
    (∀ c, c < w.accepted → (w.conns c).loop = l → (w.conns c).conn.channel.fd ≠ fd) →
      (w.pollers l).channels fd = none ∧ (w.pollers l).interest fd = none
  nextConnId : w.nextConnId = w.accepted + 1
  acceptor : ∀ l, .acceptorHandleRead ∈ w.tasks l → l = 0
  /-- Handlers are called after `connect_established`. -/
  handlers : ∀ l d k, .callback d k ∈ w.tasks l →
    d < w.accepted ∧ (w.conns d).loop = l ∧ history d w.log ≠ []
  pending : ∀ l, ∀ t ∈ (w.loops l).pending, t.isFunctor = true
  asserted : ∀ a, w.fault ≠ some (.assertion a)

/-- The other connections stay where they are. -/
theorem At.other (hat : w.At d st) (ht : Touches w w' c) (hd : d ≠ c)
    (hfd : (w.conns d).conn.channel.fd ≠ (w.conns c).conn.channel.fd)
    (hname : (w.conns d).name ≠ (w.conns c).name) : w'.At d st := by
  have hconn := ht.conns d hd
  obtain ⟨hch, hint⟩ := ht.pollers (w.conns d).loop (w.conns d).conn.channel.fd
    fun hand => hfd hand.2
  refine ⟨⟨?_, ?_, ?_, ?_, ?_, ?_⟩, ?_⟩
  · rw [hconn]
    exact hat.has.fits
  · rw [hconn]
    exact hat.has.tracks.congr hch hint
  · rw [hconn]
    exact hat.has.addr
  · rw [hconn, ht.name]
    exact hat.has.name
  · rw [hconn, ht.connections _ hname]
    exact hat.has.entry
  · have hhist := ht.log d hd
    refine ⟨?_, ?_⟩
    · rw [milestones, hhist]
      exact hat.has.logged.milestones
    · rw [hhist]
      exact hat.has.logged.first
  · intro k
    rw [hconn, ht.tasks d hd k]
    exact hat.tasks k

/-- **A step on one connection** keeps the invariant when it leads to a stage. -/
theorem Inv.touch (h : Inv w) (hc : c < w.accepted) (ht : Touches w w' c) (hat : w'.At c st)
    (hst : 0 < st.reached) : Inv w' where
  stage d hd := by
    rw [ht.accepted] at hd
    by_cases hdc : d = c
    · subst hdc
      exact ⟨st, hat⟩
    · obtain ⟨std, hatd⟩ := h.stage d hd
      obtain ⟨stc, hatc⟩ := h.stage c hc
      refine ⟨std, hatd.other ht hdc (fun heq => hdc (h.fds d c hd hc heq)) fun heq => ?_⟩
      rw [hatd.has.name, hatc.has.name] at heq
      exact hdc (Nat.succ.inj (connName_injective _ heq))
  later d hd := by
    rw [ht.accepted] at hd
    have hdc : d ≠ c := by omega
    obtain ⟨htasks, hhist⟩ := h.later d hd
    exact ⟨fun k => by rw [ht.tasks d hdc k]; exact htasks k, by rw [ht.log d hdc]; exact hhist⟩
  fds d e hd he heq := by
    have hfd : ∀ d, (w'.conns d).conn.channel.fd = (w.conns d).conn.channel.fd := by
      intro d
      by_cases hdc : d = c
      · subst hdc
        exact ht.fd
      · rw [ht.conns d hdc]
    rw [hfd, hfd] at heq
    rw [ht.accepted] at hd he
    exact h.fds d e hd he heq
  unknown k fd hfree := by
    have hfree' : ∀ d, d < w.accepted → (w.conns d).loop = k →
        (w.conns d).conn.channel.fd ≠ fd := by
      intro d hd hk
      have hd' := hfree d (by rw [ht.accepted]; exact hd)
      by_cases hdc : d = c
      · subst hdc
        rw [ht.loop, ht.fd] at hd'
        exact hd' hk
      · rw [ht.conns d hdc] at hd'
        exact hd' hk
    obtain ⟨hch, hint⟩ := ht.pollers k fd fun hand => hfree' c hc hand.1.symm hand.2.symm
    rw [hch, hint]
    exact h.unknown k fd hfree'
  nextConnId := by rw [ht.nextConnId, ht.accepted, h.nextConnId]
  acceptor l hl := by
    rcases ht.kept l _ hl with hold | ⟨hne, _⟩
    · exact h.acceptor l hold
    · exact absurd rfl hne
  handlers l d k hmem := by
    have hnew : ∀ l, (w.conns c).loop = l →
        c < w'.accepted ∧ (w'.conns c).loop = l ∧ history c w'.log ≠ [] := fun l hl =>
      ⟨by rw [ht.accepted]; exact hc, by rw [ht.loop]; exact hl, hat.has.logged.history_ne_nil hst⟩
    rcases ht.kept l _ hmem with hold | ⟨_, hcall⟩
    · obtain ⟨hd, hl, hhist⟩ := h.handlers l d k hold
      by_cases hdc : d = c
      · subst hdc
        exact hnew l hl
      · rw [ht.accepted, ht.conns d hdc, ht.log d hdc]
        exact ⟨hd, hl, hhist⟩
    · obtain ⟨rfl, hl⟩ := hcall d k rfl
      exact hnew l hl
  pending := ht.pending h.pending
  asserted := by rw [ht.fault]; exact h.asserted

theorem mem_setLoop {s : ServerLoop} {k : Nat} {t u : ServerTask}
    (hkept : ∀ t ∈ s.tasks, t ∈ w.tasks l ∨ t = u) (h : t ∈ (w.setLoop l s).tasks k) :
    t ∈ w.tasks k ∨ t = u := by
  rw [setLoop_tasks] at h
  by_cases hk : k = l
  · subst hk
    rw [Function.update_self] at h
    exact hkept t h
  · rw [Function.update_of_ne hk] at h
    exact Or.inl h

/-- A change of one loop that moves no task of any connection. -/
theorem Inv.setLoop (h : Inv w) {s : ServerLoop} (hp : s.poller = (w.loops l).poller)
    (htasks : ∀ d, s.tasks.filter (ServerTask.drives d) = (w.tasks l).filter (ServerTask.drives d))
    (hkept : ∀ t ∈ s.tasks, t ∈ w.tasks l ∨ t = .userCode)
    (hpending : ∀ t ∈ s.pending, t.isFunctor = true) : Inv (w.setLoop l s) where
  stage c hc := by
    obtain ⟨st, hat⟩ := h.stage c hc
    refine ⟨st, ⟨hat.has.fits, ?_, hat.has.addr, hat.has.name, hat.has.entry, hat.has.logged⟩, ?_⟩
    · rw [setLoop_pollers_same hp]
      exact hat.has.tracks
    · rw [setLoop_tasks]
      exact hat.tasks.frame (htasks c)
  later c hc := by
    obtain ⟨htasks', hhist⟩ := h.later c hc
    rw [setLoop_tasks]
    exact ⟨htasks'.frame (htasks c), hhist⟩
  fds := h.fds
  unknown k fd hfree := by
    rw [setLoop_pollers_same hp]
    exact h.unknown k fd hfree
  nextConnId := h.nextConnId
  acceptor k hmem := (mem_setLoop hkept hmem).elim (h.acceptor k) nofun
  handlers k d _ hmem := (mem_setLoop hkept hmem).elim (h.handlers k d _) nofun
  pending k := by
    by_cases hk : k = l
    · subst hk
      rw [setLoop_self]
      exact hpending
    · rw [setLoop_of_ne _ _ hk]
      exact h.pending k
  asserted := h.asserted

/-- Another stage with the same milestones. -/
theorem Has.move (h : w.Has c st) (hfits : st'.Fits (w.conns c).conn)
    (hreached : st'.reached = st.reached) : w.Has c st' where
  fits := hfits
  tracks := h.tracks
  addr := h.addr
  name := h.name
  entry := by rw [hreached]; exact h.entry
  logged := by rw [hreached]; exact h.logged

theorem Has.setLoop (h : w.Has c st) {s : ServerLoop} (hp : s.poller = (w.loops l).poller) :
    (w.setLoop l s).Has c st :=
  ⟨h.fits, by rw [setLoop_pollers_same hp]; exact h.tracks, h.addr, h.name, h.entry, h.logged⟩

theorem Has.push (h : w.Has c st) (ts : List ServerTask) : (w.push l ts).Has c st :=
  h.setLoop rfl

theorem Has.queueInLoop (h : w.Has c st) (t : ServerTask) : (w.queueInLoop l t).Has c st :=
  h.setLoop rfl

theorem Has.runInLoop (h : w.Has c st) (target : Nat) (t : ServerTask) :
    (w.runInLoop l target t).Has c st := by
  unfold ServerState.runInLoop
  split
  · exact h.push _
  · exact h.queueInLoop _

theorem runInLoop_conns (w : ServerState) (l target : Nat) (t : ServerTask) :
    (w.runInLoop l target t).conns = w.conns := by
  unfold runInLoop
  split <;> rfl

theorem runInLoop_pollers (w : ServerState) (l target : Nat) (t : ServerTask) :
    (w.runInLoop l target t).pollers = w.pollers := by
  unfold runInLoop
  split
  · exact push_pollers w l [t]
  · exact queueInLoop_pollers w target t

theorem start_inv (name : String) (numThreads : Nat) : Inv (start name numThreads) where
  stage c hc := absurd hc (Nat.not_lt_zero c)
  later c _ := ⟨fun k => by rw [ite_self]; rfl, rfl⟩
  fds c d hc := absurd hc (Nat.not_lt_zero c)
  unknown _ _ _ := ⟨rfl, rfl⟩
  nextConnId := rfl
  acceptor _ hmem := absurd hmem List.not_mem_nil
  handlers _ _ _ hmem := absurd hmem List.not_mem_nil
  pending _ _ ht := absurd ht List.not_mem_nil
  asserted _ := nofun

-- ════════════════════════════════════════════════════════════════════════
-- A new connection
-- ════════════════════════════════════════════════════════════════════════

/-- What `new_connection` does before it hands the connection to its loop. -/
def accept (w : ServerState) (fd loop next : Nat) : ServerState :=
  { w.setConn w.accepted
      ⟨TcpConnection.new w.accepted fd, Socket.new, loop, connName w.name w.nextConnId⟩ with
    nextConnId := w.nextConnId + 1
    next := next
    accepted := w.accepted + 1
    connections := Function.update w.connections (connName w.name w.nextConnId)
      (some w.accepted) }

theorem accept_conn_self (w : ServerState) (fd loop next : Nat) :
    (w.accept fd loop next).conns w.accepted =
      ⟨TcpConnection.new w.accepted fd, Socket.new, loop, connName w.name w.nextConnId⟩ :=
  Function.update_self _ _ _

theorem accept_conn_of_lt (w : ServerState) (fd loop next : Nat) (h : d < w.accepted) :
    (w.accept fd loop next).conns d = w.conns d :=
  Function.update_of_ne (Nat.ne_of_lt h) _ _

/-- The name of the next connection is new. -/
theorem Inv.name_ne_next (h : Inv w) (hd : d < w.accepted) (hat : w.At d st) :
    (w.conns d).name ≠ connName w.name w.nextConnId := by
  rw [hat.has.name, h.nextConnId]
  intro heq
  have hid := connName_injective _ heq
  omega

/-- The connections there are stay where they are. -/
theorem Inv.accept_at (h : Inv w) (fd loop next : Nat) (hd : d < w.accepted) (hat : w.At d st) :
    (w.accept fd loop next).At d st := by
  have hconn := accept_conn_of_lt w fd loop next hd
  refine ⟨⟨?_, ?_, ?_, ?_, ?_, hat.has.logged⟩, ?_⟩
  · rw [hconn]
    exact hat.has.fits
  · rw [hconn]
    exact hat.has.tracks
  · rw [hconn]
    exact hat.has.addr
  · rw [hconn]
    exact hat.has.name
  · rw [hconn]
    exact (Function.update_of_ne (h.name_ne_next hd hat) _ _).trans hat.has.entry
  · rw [hconn]
    exact hat.tasks

theorem Inv.accept_has (h : Inv w) {fd loop next : Nat}
    (hfresh : ∀ c < w.accepted, (w.conns c).conn.channel.fd ≠ fd) :
    (w.accept fd loop next).Has w.accepted .queued := by
  have hself := accept_conn_self w fd loop next
  obtain ⟨hch, hint⟩ := h.unknown loop fd fun c hc _ => hfresh c hc
  refine ⟨?_, ?_, ?_, ?_, ?_, ?_, ?_⟩
  · rw [hself]
    exact ⟨rfl, rfl⟩
  · rw [hself]
    exact ⟨hch, hint⟩
  · rw [hself]
    rfl
  · rw [hself, ← h.nextConnId]
    rfl
  · rw [hself]
    exact Function.update_self _ _ _
  · change milestones w.accepted w.log = []
    rw [milestones, (h.later w.accepted le_rfl).2]
    rfl
  · intro e he
    have hnil : history w.accepted (w.accept fd loop next).log = [] :=
      (h.later w.accepted le_rfl).2
    rw [hnil] at he
    cases he

/-- **Accept.** The new connection waits for `connect_established`. -/
theorem Inv.runInLoop_accept (h : Inv w) {fd loop next : Nat}
    (hfresh : ∀ c < w.accepted, (w.conns c).conn.channel.fd ≠ fd) :
    Inv ((w.accept fd loop next).runInLoop l loop (.connectEstablished w.accepted)) := by
  have ht : Touches (w.accept fd loop next)
      ((w.accept fd loop next).runInLoop l loop (.connectEstablished w.accepted)) w.accepted :=
    runInLoop_touches rfl (Stage.queued.task_of _ _ List.mem_cons_self)
  have hself := accept_conn_self w fd loop next
  have hold : ∀ d, d < w.accepted → (w.accept fd loop next).conns d = w.conns d := fun d hd =>
    accept_conn_of_lt w fd loop next hd
  have hcases : ∀ d, d < w.accepted + 1 → d = w.accepted ∨ d < w.accepted := fun d hd => by omega
  constructor
  case stage =>
    intro d hd
    rw [ht.accepted] at hd
    rcases hcases d hd with rfl | hd
    · refine ⟨.queued, (h.accept_has hfresh).runInLoop _ _, ?_⟩
      rw [runInLoop_conns, hself]
      exact runInLoop_holds (h.later w.accepted le_rfl).1 (decide_eq_true rfl)
    · obtain ⟨st, hat⟩ := h.stage d hd
      refine ⟨st, (h.accept_at fd loop next hd hat).other ht (Nat.ne_of_lt hd) ?_ ?_⟩
      · rw [hold d hd, hself]
        exact hfresh d hd
      · rw [hold d hd, hself]
        exact h.name_ne_next hd hat
  case later =>
    intro d hd
    rw [ht.accepted] at hd
    have hlt : w.accepted < d := hd
    obtain ⟨htasks, hhist⟩ := h.later d (Nat.le_of_lt hlt)
    refine ⟨fun k => ?_, ?_⟩
    · rw [ht.tasks d (Nat.ne_of_gt hlt) k]
      exact htasks k
    · rw [ht.log d (Nat.ne_of_gt hlt)]
      exact hhist
  case fds =>
    intro d e hd he heq
    rw [runInLoop_conns] at heq
    rw [ht.accepted] at hd he
    rcases hcases d hd with rfl | hd <;> rcases hcases e he with rfl | he
    · rfl
    · rw [hself, hold e he] at heq
      exact absurd heq.symm (hfresh e he)
    · rw [hself, hold d hd] at heq
      exact absurd heq (hfresh d hd)
    · rw [hold d hd, hold e he] at heq
      exact h.fds d e hd he heq
  case unknown =>
    intro k fd' hfree
    rw [runInLoop_conns, ht.accepted] at hfree
    rw [runInLoop_pollers]
    refine h.unknown k fd' fun c hc => ?_
    have hc' := hfree c (Nat.lt_succ_of_lt hc)
    rw [hold c hc] at hc'
    exact hc'
  case nextConnId =>
    rw [ht.nextConnId, ht.accepted]
    exact congrArg (· + 1) h.nextConnId
  case acceptor => exact fun k hmem => (mem_runInLoop hmem).elim (h.acceptor k) nofun
  case handlers =>
    intro k d m hmem
    rcases mem_runInLoop hmem with hmem | hmem
    · obtain ⟨hd, hl, hhist⟩ := h.handlers k d m hmem
      rw [runInLoop_conns, ht.accepted, ht.log d (Nat.ne_of_lt hd), hold d hd]
      exact ⟨Nat.lt_succ_of_lt hd, hl, hhist⟩
    · cases hmem
  case pending => exact ht.pending h.pending
  case asserted =>
    rw [ht.fault]
    exact h.asserted

theorem Inv.newConnection (h : Inv w) {fd : Nat} (hl : l = 0)
    (hfresh : ∀ c < w.accepted, (w.conns c).conn.channel.fd ≠ fd) :
    Passes (w.newConnection l fd) Inv := by
  subst hl
  rw [ServerState.newConnection]
  by_cases hid : 2 ^ 31 - 1 ≤ w.nextConnId
  · simp only [assertInLoopThread, decide_true, require_true, bind, Except.bind, if_pos hid]
    exact nofun
  · simp only [assertInLoopThread, decide_true, require_true, bind, Except.bind, if_neg hid]
    exact h.runInLoop_accept hfresh

-- ════════════════════════════════════════════════════════════════════════
-- Polling
-- ════════════════════════════════════════════════════════════════════════

theorem fillActiveChannels_none {p : Poller} {ready : List Ready}
    (h : ∀ fd ∈ ready.filterMap Ready.fd, ∀ m, p.interest fd ≠ some (m, c)) :
    (p.fillActiveChannels ready).filter (ServerTask.drives c) = [] := by
  rw [List.filter_eq_nil_iff]
  intro t ht hdrives
  rw [Poller.fillActiveChannels, List.mem_filterMap] at ht
  obtain ⟨r, hr, htask⟩ := ht
  have howner : t.owner = some c := of_decide_eq_true hdrives
  cases r with
  | registered fd revents =>
    obtain ⟨e, he, rfl⟩ := Option.map_eq_some_iff.mp htask
    have hc : e.2 = c := Option.some.inj howner
    refine h fd (List.mem_filterMap.mpr ⟨_, hr, rfl⟩) e.1 ?_
    rw [he, ← hc]
  | listening =>
    cases htask
    cases howner
  | other =>
    cases htask
    cases howner

/-- A descriptor that is reported once gives one task at most. -/
theorem fillActiveChannels_once {p : Poller} {fd : Nat} {ready : List Ready}
    (hnodup : (ready.filterMap Ready.fd).Nodup)
    (honly : ∀ fd' m, p.interest fd' = some (m, c) → fd' = fd) :
    (p.fillActiveChannels ready).filter (ServerTask.drives c) = [] ∨
      ∃ revents m, .registered fd revents ∈ ready ∧ p.interest fd = some (m, c) ∧
        (p.fillActiveChannels ready).filter (ServerTask.drives c) = [.handleEvent c revents] := by
  induction ready with
  | nil => exact Or.inl rfl
  | cons r ready ih =>
    have hskip : (∀ t, p.activeChannel r = some t → t.drives c = false) →
        (p.fillActiveChannels (r :: ready)).filter (ServerTask.drives c) =
          (p.fillActiveChannels ready).filter (ServerTask.drives c) := by
      intro hno
      rw [Poller.fillActiveChannels, List.filterMap_cons]
      cases hr : p.activeChannel r with
      | none => rfl
      | some t =>
        rw [List.filter_cons_of_neg (by rw [hno t hr]; exact Bool.false_ne_true)]
        rfl
    have hlater : (ready.filterMap Ready.fd).Nodup := by
      rw [List.filterMap_cons] at hnodup
      cases hfd : r.fd with
      | none => rwa [hfd] at hnodup
      | some f =>
        rw [hfd] at hnodup
        exact (List.nodup_cons.mp hnodup).2
    by_cases hdrives : ∃ t, p.activeChannel r = some t ∧ t.drives c = true
    · obtain ⟨t, htask, ht⟩ := hdrives
      have howner : t.owner = some c := of_decide_eq_true ht
      cases r with
      | registered fd' revents =>
        obtain ⟨⟨m, a⟩, he, rfl⟩ := Option.map_eq_some_iff.mp htask
        obtain rfl : a = c := Option.some.inj howner
        obtain rfl := honly fd' m he
        -- the rest cannot report it again
        have hrest : (p.fillActiveChannels ready).filter (ServerTask.drives a) = [] := by
          refine fillActiveChannels_none fun f hf m' hm' => ?_
          rw [honly f m' hm'] at hf
          exact (List.nodup_cons.mp hnodup).1 hf
        refine Or.inr ⟨revents, m, List.mem_cons_self, he, ?_⟩
        rw [Poller.fillActiveChannels, List.filterMap_cons_some htask,
          List.filter_cons_of_pos ht, ← Poller.fillActiveChannels, hrest]
      | listening =>
        cases htask
        cases howner
      | other =>
        cases htask
        cases howner
    · have hsame := hskip fun t htask => by
        by_contra ht
        exact hdrives ⟨t, htask, Bool.not_eq_false _ ▸ ht⟩
      rw [hsame]
      rcases ih hlater with hnil | ⟨revents, m, hmem, hint, hone⟩
      · exact Or.inl hnil
      · exact Or.inr ⟨revents, m, List.mem_cons_of_mem r hmem, hint, hone⟩

/-- A registration belongs to a connection of the loop. -/
theorem Inv.registered (h : Inv w) {fd : Nat} {m : PollMask} {a : Nat}
    (hint : (w.pollers l).interest fd = some (m, a)) :
    a < w.accepted ∧ (w.conns a).loop = l ∧ (w.conns a).conn.channel.fd = fd ∧
      (w.conns a).conn.channel.index = .kAdded := by
  have hknown : ∃ c, c < w.accepted ∧ (w.conns c).loop = l ∧ (w.conns c).conn.channel.fd = fd := by
    by_contra hno
    have hnone := (h.unknown l fd fun c hc hl hfd => hno ⟨c, hc, hl, hfd⟩).2
    rw [hint] at hnone
    cases hnone
  obtain ⟨c, hc, rfl, rfl⟩ := hknown
  obtain ⟨st, hat⟩ := h.stage c hc
  have htracks := hat.has.tracks
  unfold Poller.Tracks at htracks
  cases hidx : (w.conns c).conn.channel.index with
  | kNew =>
    rw [hidx, hint] at htracks
    cases htracks.2
  | kDeleted =>
    rw [hidx, hint] at htracks
    cases htracks.2
  | kAdded =>
    rw [hidx, hint] at htracks
    have haddr : a = c := (Prod.mk.inj (Option.some.inj htracks.2)).2.trans hat.has.addr
    subst haddr
    exact ⟨hc, rfl, rfl, hidx⟩

/-- A registered connection with no task but functors in its loop is up. -/
theorem At.up_of_registered (h : w.At c st) (hidx : (w.conns c).conn.channel.index = .kAdded)
    (htasks : ∀ t ∈ w.tasks (w.conns c).loop, t.isFunctor = true) : st = .up := by
  have hhere : st.place (w.conns c).loop = (w.conns c).loop →
      ∀ t ∈ st.task c, t.isFunctor = true := by
    intro hplace t ht
    have hfilter := h.tasks.here
    rw [hplace] at hfilter
    rw [← hfilter] at ht
    exact htasks t (List.mem_of_mem_filter ht)
  have hfits := h.has.fits
  cases st with
  | up => rfl
  | polled revents => cases hhere rfl _ (List.mem_singleton_self _)
  | reading => cases hhere rfl _ (List.mem_singleton_self _)
  | closing => cases hhere rfl _ (List.mem_singleton_self _)
  | queued =>
    have hnew := hfits.2
    rw [hidx] at hnew
    cases hnew
  | closed | removing | erased | destroying | gone =>
    have hdown := hfits.2.2
    rw [hidx] at hdown
    cases hdown

/-- The state after `poll`. -/
def polled (w : ServerState) (l : Nat) (ready : List Ready) : ServerState :=
  w.setPhase l (.handling ((w.pollers l).fillActiveChannels ready))

theorem polled_pollers (w : ServerState) (l : Nat) (ready : List Ready) :
    (w.polled l ready).pollers = w.pollers :=
  setLoop_pollers_same rfl

section Poll

variable {ready : List Ready} (hstack : (w.loops l).stack = [])
  (hphase : (w.loops l).phase = .polling)
include hstack hphase

theorem tasks_of_polling : w.tasks l = (w.loops l).pending := by
  rw [tasks, ServerLoop.tasks, hstack, hphase]
  rfl

theorem polled_tasks : (w.polled l ready).tasks =
    Function.update w.tasks l ((w.pollers l).fillActiveChannels ready ++ w.tasks l) := by
  rw [polled, setPhase, setLoop_tasks, tasks_of_polling hstack hphase, ServerLoop.tasks, hstack]
  rfl

theorem mem_polled {k : Nat} {t : ServerTask} (h : t ∈ (w.polled l ready).tasks k) :
    t ∈ w.tasks k ∨ k = l ∧ ∃ r ∈ ready, (w.pollers l).activeChannel r = some t := by
  rw [polled_tasks hstack hphase] at h
  by_cases hk : k = l
  · subst hk
    rw [Function.update_self] at h
    rcases List.mem_append.mp h with h | h
    · exact Or.inr ⟨rfl, List.mem_filterMap.mp h⟩
    · exact Or.inl h
  · rw [Function.update_of_ne hk] at h
    exact Or.inl h

/-- A connection that is not reported keeps its task. -/
theorem polled_holds {i : Nat} {ts : List ServerTask}
    (h : Queues.Holds w.tasks (ServerTask.drives c) i ts)
    (hnil : ((w.pollers l).fillActiveChannels ready).filter (ServerTask.drives c) = []) :
    Queues.Holds (w.polled l ready).tasks (ServerTask.drives c) i ts := by
  rw [polled_tasks hstack hphase]
  refine h.frame ?_
  rw [List.filter_append, hnil, List.nil_append]

/-- A connection stays where it is, or it was up and is reported. -/
theorem Inv.polled_at (h : Inv w) (hnodup : (ready.filterMap Ready.fd).Nodup)
    (hhup : ∀ r ∈ ready, r.hupAlone = false) (hat : w.At c st) :
    ∃ st', (w.polled l ready).At c st' := by
  have hhas : (w.polled l ready).Has c st := hat.has.setLoop rfl
  have honly : ∀ fd m, (w.pollers l).interest fd = some (m, c) →
      fd = (w.conns c).conn.channel.fd := fun fd m hint => (h.registered hint).2.2.1.symm
  rcases fillActiveChannels_once hnodup honly with hnil | ⟨revents, m, hmem, hint, hone⟩
  · exact ⟨st, hhas, polled_holds hstack hphase hat.tasks hnil⟩
  · obtain ⟨_, hloop, _, hidx⟩ := h.registered hint
    have hup : st = .up := by
      refine hat.up_of_registered hidx fun t ht => ?_
      rw [hloop, tasks_of_polling hstack hphase] at ht
      exact h.pending l t ht
    subst hup
    have hidle : Queues.Holds w.tasks (ServerTask.drives c) (w.conns c).loop [] := hat.tasks
    refine ⟨.polled revents, hhas.move ⟨hhas.fits, hhup _ hmem⟩ rfl, ?_⟩
    rw [polled_tasks hstack hphase]
    change Queues.Holds _ _ (w.conns c).loop _
    rw [hloop]
    refine hidle.put ?_
    rw [List.filter_append, hone, hidle.filter_eq_nil]
    rfl

/-- **Poll.** Every event goes to a connection that is up. -/
theorem Inv.poll (h : Inv w) (hlisten : .listening ∈ ready → l = 0)
    (hnodup : (ready.filterMap Ready.fd).Nodup) (hhup : ∀ r ∈ ready, r.hupAlone = false) :
    Inv (w.polled l ready) where
  stage c hc := by
    obtain ⟨st, hat⟩ := h.stage c hc
    exact h.polled_at hstack hphase hnodup hhup hat
  later c hc := by
    obtain ⟨htasks, hhist⟩ := h.later c hc
    refine ⟨polled_holds hstack hphase htasks (fillActiveChannels_none fun fd _ m hint => ?_), hhist⟩
    exact absurd (h.registered hint).1 (Nat.not_lt.mpr hc)
  fds := h.fds
  unknown k fd hfree := by
    rw [polled_pollers]
    exact h.unknown k fd hfree
  nextConnId := h.nextConnId
  acceptor k hk := by
    rcases mem_polled hstack hphase hk with hk | ⟨rfl, r, hr, htask⟩
    · exact h.acceptor k hk
    · cases r with
      | registered fd revents =>
        obtain ⟨e, _, hbad⟩ := Option.map_eq_some_iff.mp htask
        cases hbad
      | listening => exact hlisten hr
      | other => cases htask
  handlers k d m hk := by
    rcases mem_polled hstack hphase hk with hk | ⟨rfl, r, hr, htask⟩
    · exact h.handlers k d m hk
    · cases r with
      | registered fd revents =>
        obtain ⟨e, _, hbad⟩ := Option.map_eq_some_iff.mp htask
        cases hbad
      | listening => cases htask
      | other => cases htask
  pending k := by
    by_cases hk : k = l
    · subst hk
      rw [polled, setPhase, setLoop_self]
      exact h.pending k
    · rw [polled, setPhase, setLoop_of_ne _ _ hk]
      exact h.pending k
  asserted := h.asserted

end Poll

end ServerState

end DamnWebServer
