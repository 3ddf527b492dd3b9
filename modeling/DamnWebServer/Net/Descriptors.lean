import DamnWebServer.Net.TcpServer

/-!
# The descriptors the server accepts

`Acceptor::handle_read` (`net/acceptor.cpp`) with its spare descriptor, over the
server and its loops, and the kernel's table of open descriptors. A descriptor
number may be handed out again after `::close`, so each successful accept has a
number of its own, and the table says which of them a descriptor number stands for.

A `Tcp_Connection` object exists as long as a `shared_ptr` to it does: in
`connections_`, in a functor, on the stack of a loop that calls one of its callbacks, or
in the hands of the user. Its destructor does not close `socket_fd_`, and nothing else
does.
-/

namespace DamnWebServer

/-- What an open descriptor number stands for. -/
inductive Descriptor where
  /-- The socket of the accept of this number. -/
  | accepted (k : Nat)
  /-- `/dev/null`, kept for `EMFILE`. -/
  | spare
  deriving DecidableEq, Repr

/-- The connection that a task of a loop has a `shared_ptr` to. The callbacks of a
    channel are bound to a plain pointer. -/
def ServerTask.holds : ServerTask → Option Nat
  | .connectEstablished c | .closeCallback c | .removeConnectionInLoop c | .connectDestroyed c
  | .channelRemove c => some c
  | .handleEvent _ _ | .callback _ _ | .acceptorHandleRead | .userCode | .handleClose _ => none

structure FdState where
  server : ServerState
  /-- `new_connection_callback_` is set. -/
  hasCallback : Bool
  /-- `idle_fd_`, with `none` for -1. -/
  idleFd : Option Nat
  /-- The open descriptors. -/
  table : Nat → Option Descriptor
  /-- The successful accepts so far. -/
  accepts : Nat
  /-- How often the descriptor of an accept has been closed. -/
  closes : Nat → Nat
  /-- `socket_fd_` of each connection, which is set by the constructor only. -/
  socketFd : Nat → Nat
  /-- The connections of the functors that a loop has called in this round: `functors`
      is destroyed when all of them are done. -/
  spent : Nat → List Nat
  /-- The user keeps a `Tcp_Connection_Ptr`. -/
  kept : Nat → Bool

/-- The results of the system calls of one `Acceptor::handle_read`. The last two are
    made for `EMFILE` only. -/
structure AcceptorCalls where
  /-- `accept4` of `Acceptor::accept`, or `errno`. -/
  accept4 : Except Errno Nat
  /-- `::accept(listenfd_, nullptr, nullptr)`. -/
  accept : Option Nat
  /-- `::open("/dev/null", ...)`. -/
  reopen : Option Nat

inductive FdStep where
  /-- The acceptor's handler, on top of the stack of loop 0. -/
  | handleRead (k : AcceptorCalls)
  /-- Any other step of the server. -/
  | server (step : ServerStep)
  /-- The user copies a `Tcp_Connection_Ptr`. -/
  | keep (c : Nat)
  /-- The user lets it go. -/
  | drop (c : Nat)

namespace FdState

/-- `::close`, which has no effect on a number that is not open. -/
def close (s : FdState) (fd : Option Nat) : FdState :=
  match fd.bind s.table with
  | none => s
  | some .spare => { s with table := Function.update s.table (fd.getD 0) none }
  | some (.accepted k) =>
    { s with
      table := Function.update s.table (fd.getD 0) none
      closes := Function.update s.closes k (s.closes k + 1) }

/-- An accept returns `fd`. -/
def acceptFd (s : FdState) (fd : Nat) : FdState :=
  { s with table := Function.update s.table fd (some (.accepted s.accepts)), accepts := s.accepts + 1 }

/-- The task `acceptorHandleRead` leaves the stack, after `new_connection(fd)` where one
    was made. -/
def handled (s : FdState) (fd : Option Nat) : FdState :=
  { s with server := s.server.perform (.run 0 ⟨.delivered [], .wrote 0, fd⟩) }

/-- `new_connection_callback_(connfd, peer_addr)`. -/
def newConnection (s : FdState) (fd : Nat) : FdState :=
  { s.handled (some fd) with socketFd := Function.update s.socketFd s.server.accepted fd }

/-- `idle_fd_ = ::accept(...)`. -/
def acceptIdle (s : FdState) : Option Nat → FdState
  | some fd => { s.acceptFd fd with idleFd := some fd }
  | none => { s with idleFd := none }

/-- `idle_fd_ = ::open("/dev/null", ...)`. -/
def openIdle (s : FdState) : Option Nat → FdState
  | some fd => { s with table := Function.update s.table fd (some .spare), idleFd := some fd }
  | none => { s with idleFd := none }

/-- The first three calls for `EMFILE`. -/
def turnAway (s : FdState) (fd : Option Nat) : FdState :=
  let s := (s.close s.idleFd).acceptIdle fd
  s.close s.idleFd

/-- `Acceptor::handle_read`. -/
def handleRead (s : FdState) (k : AcceptorCalls) : FdState :=
  match k.accept4 with
  | .ok fd =>
    if s.hasCallback then (s.acceptFd fd).newConnection fd
    else ((s.acceptFd fd).close (some fd)).handled none
  | .error .emfile => ((s.turnAway k.accept).openIdle k.reopen).handled none
  | .error _ => s.handled none

/-- A `Tcp_Connection_Ptr` to the connection is left somewhere. -/
def Exists (s : FdState) (c : Nat) : Prop :=
  s.server.connections (s.server.conns c).name = some c ∨ s.kept c = true ∨
    ∃ l ∈ List.range (s.server.numThreads + 1),
      c ∈ s.spent l ∨ ∃ t ∈ s.server.tasks l, t.holds = some c

/-- The connection of the functor that the loop calls next. -/
def nextFunctor (s : FdState) (l : Nat) : List Nat :=
  match (s.server.loops l).phase with
  | .functors (t :: _) => t.holds.toList
  | .functors [] | .polling | .handling _ => []

/-- A functor that was called stays in `functors` to the end of the round. -/
def spend (s : FdState) : ServerStep → Nat → List Nat
  | .next l => Function.update s.spent l (s.nextFunctor l ++ s.spent l)
  | .again l => Function.update s.spent l []
  | .poll _ _ | .swap _ | .run _ _ | .call _ _ _ | .userReturn _ | .userFunctor _ => s.spent

def perform (s : FdState) : FdStep → FdState
  | .handleRead k => s.handleRead k
  | .server step => { s with server := s.server.perform step, spent := s.spend step }
  | .keep c => { s with kept := Function.update s.kept c true }
  | .drop c => { s with kept := Function.update s.kept c false }

/-- The top of the stack is the acceptor's handler. -/
def atAcceptor (s : FdState) (l : Nat) : Bool :=
  (s.server.loops l).stack.head? = some .acceptorHandleRead

/-- The kernel returns a number that is not open. -/
def Fresh (s : FdState) (k : AcceptorCalls) : Prop :=
  match k.accept4 with
  | .ok fd => s.table fd = none
  | .error .emfile => (∀ fd ∈ k.accept, (s.close s.idleFd).table fd = none) ∧
      ∀ fd ∈ k.reopen, (s.turnAway k.accept).table fd = none
  | .error _ => True

/-- User code works on connections through a pointer it has. -/
def Enabled (s : FdState) : FdStep → Prop
  | .handleRead k => s.server.fault = none ∧ s.atAcceptor 0 = true ∧ s.Fresh k
  | .server (.run l k) => s.server.Enabled (.run l k) ∧ s.atAcceptor l = false
  | .server (.call l c u) => s.server.Enabled (.call l c u) ∧ s.Exists c
  | .server step => s.server.Enabled step
  | .keep c => c < s.server.accepted ∧ s.Exists c
  | .drop c => s.kept c = true

/-- A server that has been started, with or without a callback in its acceptor. The
    constructor may have failed to open the spare descriptor. -/
def start (name : String) (numThreads : Nat) (hasCallback : Bool) (idleFd : Option Nat) : FdState where
  server := ServerState.start name numThreads
  hasCallback := hasCallback
  idleFd := idleFd
  table n := if idleFd = some n then some .spare else none
  accepts := 0
  closes _ := 0
  socketFd _ := 0
  spent _ := []
  kept _ := false

/-- A failed call ends the run. -/
def system : Transition.System FdState FdStep where
  init s := ∃ name numThreads hasCallback idleFd, s = start name numThreads hasCallback idleFd
  step s l t := s.Enabled l ∧ s.perform l = t ∧ t.server.fault = none

/-- An existing connection holds the descriptor of the accept `k`. -/
def HeldOpen (s : FdState) (k : Nat) : Prop :=
  ∃ c < s.server.accepted, s.Exists c ∧ s.table (s.socketFd c) = some (.accepted k)

/-- No descriptor leaks: each one that was accepted is held or has been closed once. -/
def NoLeak (s : FdState) : Prop := ∀ k < s.accepts, s.HeldOpen k ∨ s.closes k = 1

end FdState

-- ════════════════════════════════════════════════════════════════════════
-- How many connections a step makes
-- ════════════════════════════════════════════════════════════════════════

namespace ServerState

variable {w w' : ServerState}

theorem newConnection_accepted {l fd : Nat} (h : w.newConnection l fd = .ok w') :
    w'.accepted = w.accepted + 1 := by
  obtain ⟨_, _, h⟩ := bind_eq_ok h
  simp only at h
  split at h
  · cases h
  · cases h
    exact runInLoop_frame (·.accepted) (fun _ _ _ _ _ _ => rfl) _ _ _

/-- A call that returned, or the state with a fault. -/
theorem settle_eq {x : Except Fault ServerState} (h : (w.settle x).fault = none) :
    x = .ok (w.settle x) := by
  cases x with
  | ok v => rfl
  | error f => cases h

end ServerState

namespace FdState

variable {s : FdState}

/-- The acceptor's handler returns; with a descriptor it has made a connection. -/
theorem handled_accepted (hs : s.atAcceptor 0 = true) {fd : Option Nat}
    (h : (s.handled fd).server.fault = none) :
    (s.handled fd).server.accepted = s.server.accepted + fd.toList.length := by
  rw [atAcceptor, decide_eq_true_iff, List.head?_eq_some_iff] at hs
  obtain ⟨rest, hstack⟩ := hs
  simp only [handled, ServerState.perform, hstack] at h ⊢
  have hok := ServerState.settle_eq h
  cases fd with
  | none =>
    cases hok
    rfl
  | some fd => exact (ServerState.newConnection_accepted hok).trans rfl

-- ════════════════════════════════════════════════════════════════════════
-- The invariant
-- ════════════════════════════════════════════════════════════════════════

/-- The books of the acceptor, while it has the descriptor `hand` in its hands: an
    accepted descriptor is open and belongs to a connection, or it is the one in hand,
    or it has been closed once. -/
structure Inv (s : FdState) (hand : Option Nat) : Prop where
  open_once : ∀ n k, s.table n = some (.accepted k) → k < s.accepts ∧ s.closes k = 0
  one_number : ∀ n m k, s.table n = some (.accepted k) → s.table m = some (.accepted k) → n = m
  later : ∀ k, s.accepts ≤ k → s.closes k = 0
  socket : ∀ c < s.server.accepted, ∃ k, s.table (s.socketFd c) = some (.accepted k)
  own_socket : ∀ c < s.server.accepted, ∀ d < s.server.accepted,
    s.socketFd c = s.socketFd d → c = d
  in_hand : ∀ n ∈ hand, (∃ k, s.table n = some (.accepted k)) ∧
    ∀ c < s.server.accepted, s.socketFd c ≠ n
  settled : ∀ k < s.accepts, s.closes k = 1 ∨
    (∃ c < s.server.accepted, s.table (s.socketFd c) = some (.accepted k)) ∨
      ∃ n ∈ hand, s.table n = some (.accepted k)

/-- `idle_fd_` is the spare descriptor, if it could be opened. -/
def SpareReady (s : FdState) : Prop := ∀ n ∈ s.idleFd, s.table n = some .spare

/-- The books are about accepted descriptors only. -/
theorem Inv.of_same {t : FdState} {hand : Option Nat} (h : Inv s hand)
    (htable : ∀ n k, t.table n = some (.accepted k) ↔ s.table n = some (.accepted k))
    (haccepts : t.accepts = s.accepts) (hcloses : t.closes = s.closes)
    (hsocket : t.socketFd = s.socketFd) (haccepted : t.server.accepted = s.server.accepted) :
    Inv t hand := by
  constructor
  · simp only [htable, haccepts, hcloses]
    exact h.open_once
  · simp only [htable]
    exact h.one_number
  · rw [haccepts, hcloses]
    exact h.later
  · simp only [htable, hsocket, haccepted]
    exact h.socket
  · rw [hsocket, haccepted]
    exact h.own_socket
  · simp only [htable, hsocket, haccepted]
    exact h.in_hand
  · simp only [htable, haccepts, hcloses, hsocket, haccepted]
    exact h.settled

/-- Numbers that stand for no accept may change. -/
theorem update_accepted_iff {table : Nat → Option Descriptor} {fd : Nat} {v : Option Descriptor}
    (hold : ∀ k, table fd ≠ some (.accepted k)) (hnew : ∀ k, v ≠ some (.accepted k)) (n k : Nat) :
    Function.update table fd v n = some (.accepted k) ↔ table n = some (.accepted k) := by
  by_cases hn : n = fd
  · rw [hn, Function.update_self]
    exact iff_of_false (hnew k) (hold k)
  · rw [Function.update_of_ne hn]

/-- A new descriptor is in the acceptor's hands. -/
theorem Inv.acceptFd (h : Inv s none) {fd : Nat} (hfd : s.table fd = none) :
    Inv (s.acceptFd fd) (some fd) := by
  have hself : (s.acceptFd fd).table fd = some (.accepted s.accepts) := Function.update_self ..
  have hother : ∀ n, n ≠ fd → (s.acceptFd fd).table n = s.table n := fun n hn =>
    Function.update_of_ne hn ..
  have hconn : ∀ c < s.server.accepted, s.socketFd c ≠ fd := by
    intro c hc heq
    obtain ⟨k, hk⟩ := h.socket c hc
    rw [heq, hfd] at hk
    cases hk
  have htable : ∀ n k, (s.acceptFd fd).table n = some (.accepted k) →
      (n = fd ∧ k = s.accepts) ∨ (n ≠ fd ∧ s.table n = some (.accepted k)) := by
    intro n k hn
    by_cases hne : n = fd
    · rw [hne, hself] at hn
      cases hn
      exact Or.inl ⟨hne, rfl⟩
    · rw [hother n hne] at hn
      exact Or.inr ⟨hne, hn⟩
  constructor
  · intro n k hn
    rcases htable n k hn with ⟨_, rfl⟩ | ⟨_, hold⟩
    · exact ⟨Nat.lt_succ_self _, h.later _ (Nat.le_refl _)⟩
    · obtain ⟨hlt, hopen⟩ := h.open_once n k hold
      exact ⟨Nat.lt_succ_of_lt hlt, hopen⟩
  · intro n m k hn hm
    rcases htable n k hn with ⟨rfl, rfl⟩ | ⟨_, hn⟩
    · rcases htable m _ hm with ⟨rfl, _⟩ | ⟨_, hm⟩
      · rfl
      · exact absurd (h.open_once m _ hm).1 (Nat.lt_irrefl _)
    · rcases htable m k hm with ⟨_, rfl⟩ | ⟨_, hm⟩
      · exact absurd (h.open_once n _ hn).1 (Nat.lt_irrefl _)
      · exact h.one_number n m k hn hm
  · intro k hk
    exact h.later k (Nat.le_of_succ_le hk)
  · intro c hc
    obtain ⟨k, hk⟩ := h.socket c hc
    exact ⟨k, (hother _ (hconn c hc)).trans hk⟩
  · exact h.own_socket
  · intro n hn
    cases hn
    exact ⟨⟨s.accepts, hself⟩, hconn⟩
  · intro k hk
    by_cases hnew : k = s.accepts
    · exact Or.inr (Or.inr ⟨fd, rfl, by rw [hnew]; exact hself⟩)
    · rcases h.settled k (Nat.lt_of_le_of_ne (Nat.le_of_lt_succ hk) hnew) with
        hclosed | ⟨c, hc, hopen⟩ | ⟨n, hn, _⟩
      · exact Or.inl hclosed
      · exact Or.inr (Or.inl ⟨c, hc, (hother _ (hconn c hc)).trans hopen⟩)
      · cases hn

/-- It is closed at once. -/
theorem Inv.close_hand {n : Nat} (h : Inv s (some n)) : Inv (s.close (some n)) none := by
  obtain ⟨⟨k₀, hk₀⟩, hconn⟩ := h.in_hand n rfl
  have hclose : s.close (some n) = { s with
      table := Function.update s.table n none
      closes := Function.update s.closes k₀ (s.closes k₀ + 1) } := by
    simp only [close, Option.bind_some, hk₀, Option.getD_some]
  have hzero : s.closes k₀ = 0 := (h.open_once n k₀ hk₀).2
  have htable : ∀ m k, Function.update s.table n none m = some (Descriptor.accepted k) →
      s.table m = some (.accepted k) ∧ k ≠ k₀ := by
    intro m k hm
    by_cases hmn : m = n
    · rw [hmn, Function.update_self] at hm
      cases hm
    · rw [Function.update_of_ne hmn] at hm
      refine ⟨hm, ?_⟩
      rintro rfl
      exact hmn (h.one_number m n _ hm hk₀)
  have hkeep : ∀ c < s.server.accepted,
      Function.update s.table n none (s.socketFd c) = s.table (s.socketFd c) := fun c hc =>
    Function.update_of_ne (hconn c hc) ..
  rw [hclose]
  constructor
  · intro m k hm
    obtain ⟨hold, hne⟩ := htable m k hm
    simp only [Function.update_of_ne hne]
    exact h.open_once m k hold
  · intro m m' k hm hm'
    exact h.one_number m m' k (htable m k hm).1 (htable m' k hm').1
  · intro k hk
    have hne : k ≠ k₀ := fun heq => absurd (heq ▸ (h.open_once n k₀ hk₀).1) (Nat.not_lt.mpr hk)
    simp only [Function.update_of_ne hne]
    exact h.later k hk
  · intro c hc
    obtain ⟨k, hk⟩ := h.socket c hc
    exact ⟨k, (hkeep c hc).trans hk⟩
  · exact h.own_socket
  · intro m hm
    cases hm
  · intro k hk
    by_cases hkk : k = k₀
    · left
      simp only [hkk, Function.update_self, hzero]
    · simp only [Function.update_of_ne hkk]
      rcases h.settled k hk with hclosed | ⟨c, hc, hopen⟩ | ⟨m, hm, hopen⟩
      · exact Or.inl hclosed
      · exact Or.inr (Or.inl ⟨c, hc, (hkeep c hc).trans hopen⟩)
      · cases hm
        rw [hk₀] at hopen
        cases hopen
        exact absurd rfl hkk

/-- It becomes the socket of a new connection. -/
theorem Inv.hand_over {t : FdState} {fd : Nat} (h : Inv s (some fd)) (htable : t.table = s.table)
    (haccepts : t.accepts = s.accepts) (hcloses : t.closes = s.closes)
    (hsocket : t.socketFd = Function.update s.socketFd s.server.accepted fd)
    (haccepted : t.server.accepted = s.server.accepted + 1) : Inv t none := by
  obtain ⟨⟨k₀, hk₀⟩, hconn⟩ := h.in_hand fd rfl
  have hnew : t.socketFd s.server.accepted = fd := by
    rw [hsocket, Function.update_self]
  have hold : ∀ c < s.server.accepted, t.socketFd c = s.socketFd c := by
    intro c hc
    rw [hsocket, Function.update_of_ne (Nat.ne_of_lt hc)]
  constructor
  · rw [htable, haccepts, hcloses]
    exact h.open_once
  · rw [htable]
    exact h.one_number
  · rw [haccepts, hcloses]
    exact h.later
  · intro c hc
    rw [haccepted] at hc
    rw [htable]
    rcases Nat.lt_succ_iff_lt_or_eq.mp hc with hlt | rfl
    · rw [hold c hlt]
      exact h.socket c hlt
    · exact ⟨k₀, by rw [hnew]; exact hk₀⟩
  · intro c hc d hd heq
    rw [haccepted] at hc hd
    rcases Nat.lt_succ_iff_lt_or_eq.mp hc with hc | rfl
    · rcases Nat.lt_succ_iff_lt_or_eq.mp hd with hd | rfl
      · rw [hold c hc, hold d hd] at heq
        exact h.own_socket c hc d hd heq
      · rw [hold c hc, hnew] at heq
        exact absurd heq (hconn c hc)
    · rcases Nat.lt_succ_iff_lt_or_eq.mp hd with hd | rfl
      · rw [hnew, hold d hd] at heq
        exact absurd heq.symm (hconn d hd)
      · rfl
  · intro n hn
    cases hn
  · intro k hk
    rw [haccepts] at hk
    rw [hcloses, htable, haccepted]
    rcases h.settled k hk with hclosed | ⟨c, hc, hopen⟩ | ⟨n, hn, hopen⟩
    · exact Or.inl hclosed
    · exact Or.inr (Or.inl ⟨c, Nat.lt_succ_of_lt hc, by rw [hold c hc]; exact hopen⟩)
    · cases hn
      exact Or.inr (Or.inl ⟨_, Nat.lt_succ_self _, by rw [hnew]; exact hopen⟩)

theorem Inv.close_spare {hand : Option Nat} (h : Inv s hand) (hspare : s.SpareReady) :
    Inv (s.close s.idleFd) hand := by
  cases hidle : s.idleFd with
  | none => exact h
  | some n =>
    have hn : s.table n = some .spare := hspare n hidle
    have hclose : s.close (some n) = { s with table := Function.update s.table n none } := by
      simp only [close, Option.bind_some, hn, Option.getD_some]
    rw [hclose]
    refine h.of_same (update_accepted_iff ?_ nofun) rfl rfl rfl rfl
    rw [hn]
    exact nofun

/-- The descriptor that is turned away has been accepted and closed. -/
theorem Inv.turnAway (h : Inv s none) (hspare : s.SpareReady) {fd : Option Nat}
    (hfd : ∀ n ∈ fd, (s.close s.idleFd).table n = none) : Inv (s.turnAway fd) none := by
  have hclosed := h.close_spare hspare
  cases fd with
  | none =>
    -- `::close(-1)`
    exact hclosed.of_same (fun _ _ => Iff.rfl) rfl rfl rfl rfl
  | some n =>
    have hin := hclosed.acceptFd (hfd n rfl)
    have hidle : Inv { (s.close s.idleFd).acceptFd n with idleFd := some n } (some n) :=
      hin.of_same (fun _ _ => Iff.rfl) rfl rfl rfl rfl
    exact hidle.close_hand

theorem Inv.openIdle (h : Inv s none) {fd : Option Nat} (hfd : ∀ n ∈ fd, s.table n = none) :
    Inv (s.openIdle fd) none ∧ (s.openIdle fd).SpareReady := by
  cases fd with
  | none => exact ⟨h.of_same (fun _ _ => Iff.rfl) rfl rfl rfl rfl, nofun⟩
  | some n =>
    have hn := hfd n rfl
    refine ⟨h.of_same (update_accepted_iff ?_ nofun) rfl rfl rfl rfl, ?_⟩
    · rw [hn]
      exact nofun
    · intro m hm
      cases hm
      exact Function.update_self ..

/-- Accepting and closing leave the spare descriptor alone. -/
theorem SpareReady.update (h : s.SpareReady) {n : Nat} (hn : s.table n ≠ some .spare)
    {v : Option Descriptor} {t : FdState} (htable : t.table = Function.update s.table n v)
    (hidle : t.idleFd = s.idleFd) : t.SpareReady := by
  intro m hm
  rw [hidle] at hm
  have hne : m ≠ n := by
    rintro rfl
    exact hn (h m hm)
  rw [htable, Function.update_of_ne hne]
  exact h m hm

theorem close_server (s : FdState) (fd : Option Nat) : (s.close fd).server = s.server := by
  unfold close
  split <;> rfl

theorem close_idleFd (s : FdState) (fd : Option Nat) : (s.close fd).idleFd = s.idleFd := by
  unfold close
  split <;> rfl

theorem close_table {n : Nat} {d : Descriptor} (h : s.table n = some d) :
    (s.close (some n)).table = Function.update s.table n none := by
  simp only [close, Option.bind_some, h, Option.getD_some]
  cases d <;> rfl

theorem turnAway_server (s : FdState) (fd : Option Nat) : (s.turnAway fd).server = s.server := by
  cases fd with
  | none => exact (close_server _ _).trans (close_server _ _)
  | some n => exact (close_server _ _).trans (close_server _ _)

theorem openIdle_server (s : FdState) (fd : Option Nat) : (s.openIdle fd).server = s.server := by
  cases fd <;> rfl

/-- The handler returns without a connection. -/
theorem Inv.handled (h : Inv s none) (hs : s.atAcceptor 0 = true)
    (hfault : (s.handled none).server.fault = none) : Inv (s.handled none) none :=
  h.of_same (fun _ _ => Iff.rfl) rfl rfl rfl (handled_accepted hs hfault)

/-- **The acceptor's handler** settles what it has accepted, whichever way it takes. -/
theorem Inv.handleRead (h : Inv s none) (hspare : s.SpareReady) {k : AcceptorCalls}
    (hs : s.atAcceptor 0 = true) (hfresh : s.Fresh k)
    (hfault : (s.handleRead k).server.fault = none) :
    Inv (s.handleRead k) none ∧ (s.handleRead k).SpareReady := by
  obtain ⟨accept4, accept, reopen⟩ := k
  unfold FdState.handleRead at hfault ⊢
  cases accept4 with
  | ok fd =>
    have hfd : s.table fd = none := hfresh
    have hin := h.acceptFd hfd
    have hready : (s.acceptFd fd).SpareReady := by
      refine hspare.update (v := some (.accepted s.accepts)) ?_ rfl rfl
      rw [hfd]
      exact nofun
    simp only at hfault ⊢
    split at hfault
    · rename_i hcall
      rw [if_pos hcall]
      refine ⟨hin.hand_over rfl rfl rfl rfl ?_, hready⟩
      exact @handled_accepted (s.acceptFd fd) hs (some fd) hfault
    · rename_i hcall
      rw [if_neg hcall]
      have hself : (s.acceptFd fd).table fd = some (.accepted s.accepts) := Function.update_self ..
      have hat : ((s.acceptFd fd).close (some fd)).atAcceptor 0 = true := by
        rw [atAcceptor, close_server]
        exact hs
      refine ⟨hin.close_hand.handled hat hfault, ?_⟩
      refine hready.update (n := fd) ?_ (close_table hself) (close_idleFd _ _)
      rw [hself]
      exact nofun
  | error e =>
    cases e with
    | emfile =>
      obtain ⟨hfd, hreopen⟩ := hfresh
      obtain ⟨hinv, hready⟩ := (h.turnAway hspare hfd).openIdle hreopen
      have hat : ((s.turnAway accept).openIdle reopen).atAcceptor 0 = true := by
        rw [atAcceptor, openIdle_server, turnAway_server]
        exact hs
      exact ⟨hinv.handled hat hfault, hready⟩
    | ewouldblock => exact ⟨h.handled hs hfault, hspare⟩
    | epipe => exact ⟨h.handled hs hfault, hspare⟩
    | econnreset => exact ⟨h.handled hs hfault, hspare⟩
    | other code => exact ⟨h.handled hs hfault, hspare⟩

theorem start_inv (name : String) (numThreads : Nat) (hasCallback : Bool) (idleFd : Option Nat) :
    Inv (start name numThreads hasCallback idleFd) none ∧
      (start name numThreads hasCallback idleFd).SpareReady := by
  have htable : ∀ n k,
      (start name numThreads hasCallback idleFd).table n ≠ some (.accepted k) := by
    intro n k
    change (if idleFd = some n then some Descriptor.spare else none) ≠ _
    split <;> exact nofun
  refine ⟨⟨?_, ?_, fun _ _ => rfl, nofun, nofun, nofun, nofun⟩, fun n hn => if_pos hn⟩
  · exact fun n k hn => absurd hn (htable n k)
  · exact fun n _ k hn => absurd hn (htable n k)

theorem step_inv {t : FdState} {l : FdStep} (h : Inv s none ∧ s.SpareReady)
    (hstep : system.step s l t) : Inv t none ∧ t.SpareReady := by
  obtain ⟨henabled, rfl, hfault⟩ := hstep
  cases l with
  | handleRead k => exact h.1.handleRead h.2 henabled.2.1 henabled.2.2 hfault
  | server step =>
    refine ⟨h.1.of_same (fun _ _ => Iff.rfl) rfl rfl rfl ?_, h.2⟩
    refine ServerState.perform_frame (·.accepted) (fun _ _ _ _ _ _ => rfl) ?_
    rintro l k rfl
    exact of_decide_eq_false henabled.2
  | keep c => exact ⟨h.1.of_same (fun _ _ => Iff.rfl) rfl rfl rfl rfl, h.2⟩
  | drop c => exact ⟨h.1.of_same (fun _ _ => Iff.rfl) rfl rfl rfl rfl, h.2⟩

/-- By the books, a descriptor is lost exactly with the object that holds it. -/
theorem Inv.noLeak_iff (h : Inv s none) : s.NoLeak ↔ ∀ c < s.server.accepted, s.Exists c := by
  constructor
  · intro hall c hc
    obtain ⟨k, hk⟩ := h.socket c hc
    obtain ⟨hlt, hzero⟩ := h.open_once _ k hk
    rcases hall k hlt with ⟨d, hd, hexists, hopen⟩ | hone
    · have heq : d = c := h.own_socket d hd c hc (h.one_number _ _ k hopen hk)
      exact heq ▸ hexists
    · rw [hzero] at hone
      cases hone
  · intro hall k hk
    rcases h.settled k hk with hclosed | ⟨c, hc, hopen⟩ | ⟨n, hn, _⟩
    · exact Or.inr hclosed
    · exact Or.inl ⟨c, hc, hall c hc, hopen⟩
    · cases hn

/-- **Descriptors.** In every reachable state, each accepted descriptor is held by an
    existing connection or has been closed exactly once if and only if no connection
    object has been destroyed. -/
theorem no_leak_iff_all_exist (h : system.Reachable s) :
    s.NoLeak ↔ ∀ c < s.server.accepted, s.Exists c := by
  have hinv : Inv s none ∧ s.SpareReady := by
    refine h.invariant (I := fun s => Inv s none ∧ s.SpareReady) ?_ fun _ _ _ => step_inv
    rintro _ ⟨name, numThreads, hasCallback, idleFd, rfl⟩
    exact start_inv name numThreads hasCallback idleFd
  exact hinv.1.noLeak_iff

instance (s : FdState) (c : Nat) : Decidable (s.Exists c) :=
  inferInstanceAs (Decidable (_ ∨ _ ∨ ∃ l ∈ _, _ ∨ ∃ t ∈ _, _))

instance (s : FdState) (k : AcceptorCalls) : Decidable (s.Fresh k) :=
  match k with
  | ⟨.ok fd, _, _⟩ => inferInstanceAs (Decidable (s.table fd = none))
  | ⟨.error .emfile, accept, reopen⟩ => inferInstanceAs
    (Decidable ((∀ fd ∈ accept, (s.close s.idleFd).table fd = none) ∧
      ∀ fd ∈ reopen, (s.turnAway accept).table fd = none))
  | ⟨.error .ewouldblock, _, _⟩ | ⟨.error .epipe, _, _⟩ | ⟨.error .econnreset, _, _⟩
  | ⟨.error (.other _), _, _⟩ => .isTrue trivial

instance (s : FdState) (l : FdStep) : Decidable (s.Enabled l) :=
  match l with
  | .handleRead k =>
    inferInstanceAs (Decidable (s.server.fault = none ∧ s.atAcceptor 0 = true ∧ s.Fresh k))
  | .server (.run l k) =>
    inferInstanceAs (Decidable (s.server.Enabled (.run l k) ∧ s.atAcceptor l = false))
  | .server (.call l c u) =>
    inferInstanceAs (Decidable (s.server.Enabled (.call l c u) ∧ s.Exists c))
  | .server (.poll l ready) => inferInstanceAs (Decidable (s.server.Enabled (.poll l ready)))
  | .server (.next l) => inferInstanceAs (Decidable (s.server.Enabled (.next l)))
  | .server (.swap l) => inferInstanceAs (Decidable (s.server.Enabled (.swap l)))
  | .server (.again l) => inferInstanceAs (Decidable (s.server.Enabled (.again l)))
  | .server (.userReturn l) => inferInstanceAs (Decidable (s.server.Enabled (.userReturn l)))
  | .server (.userFunctor l) => inferInstanceAs (Decidable (s.server.Enabled (.userFunctor l)))
  | .keep c => inferInstanceAs (Decidable (c < s.server.accepted ∧ s.Exists c))
  | .drop c => inferInstanceAs (Decidable (s.kept c = true))

/-- The state after some steps, if they are enabled and return. -/
def after (s : FdState) (tr : List FdStep) : Option FdState :=
  Transition.System.follow Enabled
    (fun s l => if (s.perform l).server.fault = none then some (s.perform l) else none) s tr

theorem reachable_of_after {name : String} {numThreads : Nat} {hasCallback : Bool}
    {idleFd : Option Nat} {t : FdState} {tr : List FdStep}
    (h : (start name numThreads hasCallback idleFd).after tr = some t) : system.Reachable t := by
  refine ⟨_, tr, ⟨name, numThreads, hasCallback, idleFd, rfl⟩, .of_follow ?_ h⟩
  intro s l t hl hnext
  split at hnext
  · rename_i hfault
    cases hnext
    exact ⟨hl, rfl, hfault⟩
  · cases hnext

/-- Two accepts: one makes a connection, the other one is turned away for `EMFILE`. -/
theorem no_leak_iff_all_exist_sample :
    ∃ s, system.Reachable s ∧ s.accepts = 2 ∧ s.server.accepted = 1 ∧ s.closes 1 = 1 ∧
      s.NoLeak := by
  let k : Kernel := ⟨.delivered [], .wrote 0, none⟩
  let tr : List FdStep := [.server (.poll 0 [.listening]), .server (.next 0),
    .handleRead ⟨.ok 7, none, none⟩, .server (.run 0 k), .server (.userReturn 0),
    .server (.swap 0), .server (.again 0), .server (.poll 0 [.listening]), .server (.next 0),
    .handleRead ⟨.error .emfile, some 3, some 3⟩]
  have hval : ((start "echo" 0 true (some 3)).after tr).map (fun s => decide (s.accepts = 2 ∧
      s.server.accepted = 1 ∧ s.closes 1 = 1 ∧ ∀ c < s.server.accepted, s.Exists c)) =
      some true := by
    decide +kernel
  obtain ⟨s, hs, heq⟩ := Option.map_eq_some_iff.mp hval
  obtain ⟨haccepts, haccepted, hcloses, hexist⟩ := of_decide_eq_true heq
  have hreach := reachable_of_after hs
  exact ⟨s, hreach, haccepts, haccepted, hcloses, (no_leak_iff_all_exist hreach).mpr hexist⟩

/-- A connection that its peer has closed: erased, destroyed, the last pointer gone at the
    end of the round, and its descriptor still open. -/
theorem destroyed_connection_leaks :
    ∃ s, system.Reachable s ∧ .connectDestroyed 0 ∈ s.server.log ∧ ¬ s.Exists 0 ∧
      s.table 7 = some (.accepted 0) ∧ s.closes 0 = 0 ∧ ¬ s.NoLeak := by
  let k : Kernel := ⟨.delivered [], .wrote 0, none⟩
  let tr : List FdStep := [.server (.poll 0 [.listening]), .server (.next 0),
    .handleRead ⟨.ok 7, none, none⟩, .server (.run 0 k), .server (.userReturn 0),
    .server (.swap 0), .server (.again 0),
    .server (.poll 0 [.registered 7 { pollin := true }]), .server (.next 0), .server (.run 0 k),
    .server (.run 0 k), .server (.run 0 k), .server (.userReturn 0), .server (.run 0 k),
    .server (.run 0 k), .server (.swap 0), .server (.next 0), .server (.run 0 k),
    .server (.run 0 k), .server (.again 0)]
  have hval : ((start "echo" 0 true (some 3)).after tr).map (fun s => decide (s.accepts = 1 ∧
      s.server.accepted = 1 ∧ .connectDestroyed 0 ∈ s.server.log ∧ ¬ s.Exists 0 ∧
      s.table 7 = some (.accepted 0) ∧ s.closes 0 = 0)) = some true := by
    decide +kernel
  obtain ⟨s, hs, heq⟩ := Option.map_eq_some_iff.mp hval
  obtain ⟨haccepts, haccepted, hlog, hgone, htable, hcloses⟩ := of_decide_eq_true heq
  refine ⟨s, reachable_of_after hs, hlog, hgone, htable, hcloses, ?_⟩
  intro hall
  rcases hall 0 (by rw [haccepts]; exact Nat.one_pos) with ⟨c, hc, hexists, _⟩ | hone
  · rw [haccepted, Nat.lt_one_iff] at hc
    exact hgone (hc ▸ hexists)
  · rw [hcloses] at hone
    cases hone

end FdState

end DamnWebServer
