import OrderEngine.ServerPort
import OrderEngine.Library.Runs

/-!
# TcpServer: who closes which descriptor

A number of a descriptor that is closed may come back as the descriptor of something else in
the process. `start` closes the listening socket on each of its error paths but keeps its number in
`listen_fd_`, and `stop`, which the destructor calls too, closes what `listen_fd_` names. Each
reactor has an epoll instance and an eventfd, which it closes when it is destroyed: the main one
when another start replaces it, a sub-reactor not before the server.
-/
namespace ListeningSocket

open ServerPort ConfigParse ConfigGetters

inductive Owner where
  | listener
  | reactor
  | other
  deriving DecidableEq, Repr

/-- The server with `listen_fd_` and the descriptors of its reactors, and the descriptors of the
process: `table` is the kernel's table, and `held` are those that the rest of the process has opened
and not closed. -/
structure State where
  server : Server
  listenFd : Int
  mainReactor : List Nat
  subReactors : List Nat
  table : Nat → Option Owner
  held : List Nat

/-- The server after its constructor. -/
def created (server : Server) : State where
  server := server
  listenFd := -1
  mainReactor := []
  subReactors := []
  table _ := none
  held := []

namespace State

def opened (s : State) (fds : List Nat) (owner : Owner) : State :=
  { s with table := fun g => if g ∈ fds then some owner else s.table g }

/-- The kernel closes the number whoever asks for it. -/
def close (s : State) (fd : Int) : State :=
  { s with table := fun g => if (g : Int) = fd then none else s.table g }

def closeAll (s : State) (fds : List Nat) : State :=
  { s with table := fun g => if g ∈ fds then none else s.table g }

/-- `start` makes the main reactor, which takes the place of the one before, and then the
sub-reactors, which join those before. -/
def makeReactors (s : State) (main sub : List Nat) : State :=
  let replaced := { (s.opened main .reactor).closeAll s.mainReactor with mainReactor := main }
  { replaced.opened sub .reactor with subReactors := s.subReactors ++ sub }

end State

/-- The numbers that the kernel gives out in `start`: of the listening socket, and of the main
reactor and the sub-reactors, each of which opens two. -/
structure Numbers where
  fd : Nat
  main : List Nat
  sub : List Nat
  deriving DecidableEq, Repr

/-- The numbers are free when they are given out: those of the sub-reactors come after the close of
the main reactor before. -/
structure Numbers.Free (n : Numbers) (s : State) : Prop where
  nodup : (n.fd :: (n.main ++ n.sub)).Nodup
  first : ∀ g ∈ n.fd :: n.main, s.table g = none
  later : ∀ g ∈ n.sub, s.table g = none ∨ g ∈ s.mainReactor
  mainLength : n.main.length = 2
  subLength : n.sub.length = 2 * s.server.threadNum.toNat

instance (n : Numbers) (s : State) : Decidable (n.Free s) :=
  decidable_of_iff
    ((n.fd :: (n.main ++ n.sub)).Nodup ∧ (∀ g ∈ n.fd :: n.main, s.table g = none) ∧
      (∀ g ∈ n.sub, s.table g = none ∨ g ∈ s.mainReactor) ∧ n.main.length = 2 ∧
      n.sub.length = 2 * s.server.threadNum.toNat)
    ⟨fun ⟨a, b, c, d, e⟩ => ⟨a, b, c, d, e⟩, fun ⟨a, b, c, d, e⟩ => ⟨a, b, c, d, e⟩⟩

/-- `TcpServer::start`, with what it returns. -/
def start (k : Kernel) (n : Numbers) (s : State) : State × Bool :=
  if s.server.running then (s, true)
  else if k.opens = false then ({ s with listenFd := -1 }, false)
  else
    let t := { s.opened [n.fd] .listener with listenFd := n.fd }
    match address k t.server.ip with
    | none => (t.close t.listenFd, false)
    | some addr =>
      if k.binds addr t.server.port = false then (t.close t.listenFd, false)
      else if k.listens = false then (t.close t.listenFd, false)
      else
        ({ t.makeReactors n.main n.sub with server := { t.server with running := true } }, true)

/-- `TcpServer::stop`, which keeps the reactors. -/
def stop (s : State) : State :=
  if s.server.running then
    let t := { s with server := { s.server with running := false } }
    if 0 ≤ t.listenFd then { t.close t.listenFd with listenFd := -1 } else t
  else s

inductive Action where
  | start (k : Kernel) (n : Numbers)
  | stop
  | otherOpens (fd : Nat)
  | otherCloses (fd : Nat)

/-- The kernel gives out free numbers, and the rest of the process closes what it has opened. -/
def step (s : State) : Action → Option State
  | .start k n => Runs.guarded (n.Free s) (start k n s).1
  | .stop => some (stop s)
  | .otherOpens fd =>
    Runs.guarded (s.table fd = none) { s.opened [fd] .other with held := fd :: s.held }
  | .otherCloses fd =>
    Runs.guarded (fd ∈ s.held) { s.close fd with held := s.held.filter (· ≠ fd) }

/-- `start` finds the server running, or fails and leaves nothing open, or the server runs on the
new socket and with new reactors. -/
inductive StartOutcome (n : Numbers) (s : State) : State × Bool → Prop where
  | already (hrunning : s.server.running = true) : StartOutcome n s (s, true)
  | fails (hidle : s.server.running = false) (t : State)
      (hsame : ∃ listenFd, t = { s with listenFd := listenFd }) : StartOutcome n s (t, false)
  | listens (hidle : s.server.running = false) :
      StartOutcome n s
        ({ ({ s.opened [n.fd] .listener with listenFd := n.fd }).makeReactors n.main n.sub with
            server := { s.server with running := true } }, true)

/-- To open a free number and to close it again is to leave the table as it was. -/
theorem opened_close {s : State} {fd : Nat} (hfree : s.table fd = none) (owner : Owner) :
    (s.opened [fd] owner).close fd = s := by
  have htable : ((s.opened [fd] owner).close fd).table = s.table := by
    funext g
    simp only [State.close, State.opened, Nat.cast_inj, List.mem_singleton]
    by_cases hg : g = fd
    · rw [if_pos hg, hg, hfree]
    · rw [if_neg hg, if_neg hg]
  exact State.mk.injEq .. ▸ ⟨rfl, rfl, rfl, rfl, htable, rfl⟩

theorem start_outcome (k : Kernel) {n : Numbers} {s : State} (hfree : s.table n.fd = none) :
    StartOutcome n s (start k n s) := by
  rw [start]
  split
  · rename_i hrunning
    exact .already hrunning
  · rename_i hidle
    rw [Bool.not_eq_true] at hidle
    have hclosed : ∃ listenFd, ({ s.opened [n.fd] .listener with listenFd := (n.fd : Int) }).close
        n.fd = { s with listenFd := listenFd } :=
      ⟨n.fd, congrArg (fun t : State => { t with listenFd := (n.fd : Int) })
        (opened_close hfree .listener)⟩
    split
    · exact .fails hidle _ ⟨-1, rfl⟩
    · simp only []
      split
      · exact .fails hidle _ hclosed
      · split
        · exact .fails hidle _ hclosed
        · split
          · exact .fails hidle _ hclosed
          · exact .listens hidle

theorem start_running (k : Kernel) {n : Numbers} {s : State} (hfree : s.table n.fd = none) :
    (start k n s).2 = (start k n s).1.server.running := by
  have houtcome := start_outcome k hfree
  generalize start k n s = r at houtcome
  cases houtcome with
  | already hrunning => exact hrunning.symm
  | fails hidle t hsame =>
    obtain ⟨listenFd, rfl⟩ := hsame
    exact hidle.symm
  | listens => rfl

/-- A machine on which the address is taken. -/
def taken : Kernel := { willing with binds := fun _ _ => false }

end ListeningSocket
