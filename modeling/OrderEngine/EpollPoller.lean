import Mathlib.Logic.Function.Basic
import Mathlib.Data.BitVec

/-!
# Channel and EpollPoller

A channel carries the events it is interested in and the state in which the
poller left it. The poller keeps the map `channels_` and tells the kernel, whose
interest set holds for each fd the registered pointer and mask.
-/
namespace EpollPoller

abbrev EventMask := BitVec 32

def epollIn : EventMask := 0x1
def epollPri : EventMask := 0x2
def epollOut : EventMask := 0x4
def epollErr : EventMask := 0x8
def epollHup : EventMask := 0x10
def epollNval : EventMask := 0x20
def epollRdHup : EventMask := 0x2000

def kNoneEvent : EventMask := 0
def kReadEvent : EventMask := epollIn ||| epollPri
def kWriteEvent : EventMask := epollOut

/-- `index_`: new, added or deleted. -/
inductive Index where
  | kNew
  | kAdded
  | kDeleted
  deriving DecidableEq, Repr

structure Channel where
  fd : Nat
  events : EventMask
  index : Index
  deriving DecidableEq, Repr

/-- `Channel::Channel(reactor, fd)`. -/
def Channel.create (fd : Nat) : Channel where
  fd := fd
  events := kNoneEvent
  index := .kNew

def Channel.isWriting (ch : Channel) : Bool := ch.events &&& kWriteEvent != 0

def Channel.isReading (ch : Channel) : Bool := ch.events &&& kReadEvent != 0

def Channel.isNoneEvent (ch : Channel) : Bool := ch.events == kNoneEvent

inductive Callback where
  | close
  | error
  | read
  | write
  deriving DecidableEq, Repr

/-- The callbacks that `Channel::handleEvent` makes, in its order. -/
def handleEvent (revents : EventMask) : List Callback :=
  (if revents &&& epollHup != 0 && revents &&& epollIn == 0 then [.close] else []) ++
  (if revents &&& (epollErr ||| epollNval) != 0 then [.error] else []) ++
  (if revents &&& (epollIn ||| epollPri ||| epollRdHup) != 0 then [.read] else []) ++
  (if revents &&& epollOut != 0 then [.write] else [])

variable {Pointer : Type*}

structure Poller (Pointer : Type*) where
  channels : Nat → Option Pointer
  interest : Nat → Option (Pointer × EventMask)

def Poller.empty : Poller Pointer where
  channels _ := none
  interest _ := none

inductive Operation where
  | add
  | mod
  | del
  deriving DecidableEq, Repr

/-- `epoll_ctl`: ADD of a present fd and MOD or DEL of an absent one fail, and a
legal call may fail as well. -/
def epollCtl (interest : Nat → Option (Pointer × EventMask)) (operation : Operation)
    (pointer : Pointer) (ch : Channel) (succeeds : Bool) : Nat → Option (Pointer × EventMask) :=
  match operation with
  | .add =>
    if succeeds && (interest ch.fd).isNone then
      Function.update interest ch.fd (some (pointer, ch.events))
    else interest
  | .mod =>
    if succeeds && (interest ch.fd).isSome then
      Function.update interest ch.fd (some (pointer, ch.events))
    else interest
  | .del =>
    if succeeds && (interest ch.fd).isSome then Function.update interest ch.fd none else interest

/-- `EpollPoller::update`. -/
def Poller.update (p : Poller Pointer) (operation : Operation) (pointer : Pointer) (ch : Channel)
    (succeeds : Bool) : Poller Pointer :=
  { p with interest := epollCtl p.interest operation pointer ch succeeds }

/-- `EpollPoller::updateChannel`. -/
def Poller.updateChannel (p : Poller Pointer) (pointer : Pointer) (ch : Channel)
    (succeeds : Bool) : Poller Pointer × Channel :=
  match ch.index with
  | .kNew =>
    let p := { p with channels := Function.update p.channels ch.fd (some pointer) }
    (p.update .add pointer ch succeeds, { ch with index := .kAdded })
  | .kDeleted => (p.update .add pointer ch succeeds, { ch with index := .kAdded })
  | .kAdded =>
    if ch.isNoneEvent then (p.update .del pointer ch succeeds, { ch with index := .kDeleted })
    else (p.update .mod pointer ch succeeds, ch)

/-- `EpollPoller::removeChannel`. -/
def Poller.removeChannel (p : Poller Pointer) (pointer : Pointer) (ch : Channel)
    (succeeds : Bool) : Poller Pointer × Channel :=
  let p := { p with channels := Function.update p.channels ch.fd none }
  let p := if ch.index = .kAdded then p.update .del pointer ch succeeds else p
  (p, { ch with index := .kNew })

/-- `Channel::enableReading`. -/
def Poller.enableReading (p : Poller Pointer) (pointer : Pointer) (ch : Channel)
    (succeeds : Bool) : Poller Pointer × Channel :=
  p.updateChannel pointer { ch with events := ch.events ||| kReadEvent } succeeds

/-- `Channel::disableAll`. -/
def Poller.disableAll (p : Poller Pointer) (pointer : Pointer) (ch : Channel)
    (succeeds : Bool) : Poller Pointer × Channel :=
  p.updateChannel pointer { ch with events := kNoneEvent } succeeds

/-- A call of `epoll_ctl` concerns no other fd. -/
theorem epollCtl_of_ne {interest : Nat → Option (Pointer × EventMask)} {operation : Operation}
    {pointer : Pointer} {ch : Channel} {succeeds : Bool} {fd : Nat} (h : fd ≠ ch.fd) :
    epollCtl interest operation pointer ch succeeds fd = interest fd := by
  cases operation <;> simp only [epollCtl] <;> split <;> simp [Function.update_of_ne h]

/-- What a call of `epoll_ctl` leaves in the interest set. -/
theorem epollCtl_some {interest : Nat → Option (Pointer × EventMask)} {operation : Operation}
    {pointer : Pointer} {ch : Channel} {succeeds : Bool} {fd : Nat} {e : Pointer × EventMask}
    (h : epollCtl interest operation pointer ch succeeds fd = some e) :
    interest fd = some e ∨ fd = ch.fd ∧ e = (pointer, ch.events) := by
  by_cases hfd : fd = ch.fd
  · subst hfd
    cases operation with
    | add | mod =>
      simp only [epollCtl] at h
      split at h
      · rw [Function.update_self] at h
        exact .inr ⟨rfl, (Option.some.inj h).symm⟩
      · exact .inl h
    | del =>
      simp only [epollCtl] at h
      split at h
      · rw [Function.update_self] at h
        cases h
      · exact .inl h
  · rw [epollCtl_of_ne hfd] at h
    exact .inl h

theorem epollCtl_del (interest : Nat → Option (Pointer × EventMask)) (pointer : Pointer)
    (ch : Channel) : epollCtl interest .del pointer ch true ch.fd = none := by
  cases h : interest ch.fd <;> simp [epollCtl, h]

/-- The first `enableReading` of a channel enters it in the interest set, if its fd
is not there and the call succeeds. -/
theorem enableReading_create (p : Poller Pointer) (pointer : Pointer) (fd : Nat)
    (succeeds : Bool) :
    (p.enableReading pointer (Channel.create fd) succeeds).1.interest =
      if succeeds && (p.interest fd).isNone then
        Function.update p.interest fd (some (pointer, kReadEvent))
      else p.interest := by
  simp [Poller.enableReading, Poller.updateChannel, Channel.create, Poller.update, epollCtl,
    kNoneEvent]

end EpollPoller
