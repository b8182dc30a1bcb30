import OrderEngine.EpollPoller
import OrderEngine.Library.Runs

/-!
# TcpConnection

The operations of one connection. A system call is given by its result: the count
it returns, or none for -1, and the errno that the code reads after it. What the
code does after a callback of the user is a separate operation, so that the
callback's own calls come between.
-/
namespace TcpConnection

open EpollPoller

inductive ConnState where
  | kConnecting
  | kConnected
  | kDisconnecting
  | kDisconnected
  deriving DecidableEq, Repr

inductive Errno where
  | wouldBlock
  | pipe
  | connReset
  | other (code : Nat)
  deriving DecidableEq, Repr

/-- The result of `write`. -/
structure WriteResult where
  count : Option Nat
  errno : Errno
  deriving DecidableEq, Repr

/-- The result of `read` into a buffer of `kBufferSize` bytes. -/
inductive ReadResult where
  | data (bytes : List UInt8)
  | closed
  | failed (errno : Errno)
  deriving DecidableEq, Repr

def kBufferSize : Nat := 65536

/-- `messageCallback` tells whether `message_callback_` is set. -/
structure Connection where
  sockfd : Nat
  state : ConnState
  inputBuffer : List UInt8
  outputBuffer : List UInt8
  messageCallback : Bool
  channel : Option Channel
  deriving DecidableEq, Repr

/-- `TcpConnection::TcpConnection(sockfd, peer_addr)`. -/
def Connection.create (sockfd : Nat) : Connection where
  sockfd := sockfd
  state := .kConnecting
  inputBuffer := []
  outputBuffer := []
  messageCallback := false
  channel := none

namespace Connection

def isConnected (c : Connection) : Bool := c.state = .kConnected

/-- Whether the connection's channel has write interest. -/
def isWriting (c : Connection) : Bool := c.channel.any Channel.isWriting

def setMessageCallback (c : Connection) (isSet : Bool) : Connection :=
  { c with messageCallback := isSet }

def setChannel (c : Connection) (ch : Channel) : Connection := { c with channel := some ch }

def establishConnection (c : Connection) : Connection := { c with state := .kConnected }

/-- `closeConnection` up to its call of `close_callback_`; `none` when it does nothing. -/
def beginClose (c : Connection) : Option Connection :=
  if c.state = .kConnected then some { c with state := .kDisconnecting } else none

/-- `closeConnection` up to its call of `close_callback_`, if it makes one. -/
def close (c : Connection) : Connection := c.beginClose.getD c

/-- `closeConnection` after `close_callback_`. -/
def endClose (c : Connection) : Connection := { c with state := .kDisconnected }

/-- `closeConnection`, with a `close_callback_` that leaves the connection as it is. -/
def closeConnection (c : Connection) : Connection := (c.beginClose.map endClose).getD c

/-- `send`, with the result of its direct write and the value it returns. -/
def send (c : Connection) (data : List UInt8) (write : WriteResult) : Connection × Int :=
  if c.state ≠ .kConnected then (c, -1)
  else if c.outputBuffer = [] then
    match write.count with
    | some nwrote =>
      if data.length - nwrote = 0 then (c, nwrote)
      else ({ c with outputBuffer := c.outputBuffer ++ data.drop nwrote }, data.length)
    | none =>
      if write.errno = .pipe ∨ write.errno = .connReset then (c, -1)
      else ({ c with outputBuffer := c.outputBuffer ++ data }, data.length)
  else ({ c with outputBuffer := c.outputBuffer ++ data }, data.length)

/-- The overload of `send` for a `std::string`. -/
def sendString (c : Connection) (data : List UInt8) (write : WriteResult) : Connection × Int :=
  c.send data write

/-- What a handler goes on to do. -/
inductive Reaction where
  | nothing
  | message
  | close
  deriving DecidableEq, Repr

/-- `handleRead` up to `message_callback_` or `closeConnection`. -/
def handleRead (c : Connection) : ReadResult → Connection × Reaction
  | .data bytes =>
    ({ c with inputBuffer := c.inputBuffer ++ bytes },
      if c.messageCallback then .message else .nothing)
  | .closed => (c, .close)
  | .failed errno => if errno = .wouldBlock then (c, .nothing) else (c, .close)

/-- `handleRead` after `message_callback_`. -/
def messageReturns (c : Connection) : Connection := { c with inputBuffer := [] }

/-- `handleWrite` up to `closeConnection`, which `handleError` calls. -/
def handleWrite (c : Connection) (write : WriteResult) : Connection × Reaction :=
  if c.outputBuffer = [] then (c, .nothing)
  else
    match write.count with
    | some (n + 1) => ({ c with outputBuffer := c.outputBuffer.drop (n + 1) }, .nothing)
    | _ => if write.errno = .wouldBlock then (c, .nothing) else (c, .close)

/-- What follows a handler: nothing further, what comes of the message, or what comes of the
close. -/
def react (onMessage onClose : Connection → Connection) : Connection × Reaction → Connection
  | (c, .nothing) => c
  | (c, .message) => onMessage c
  | (c, .close) => onClose c

/-- A connection as `handleNewConnection` hands it to its sub-reactor's events. -/
def established (sockfd : Nat) (messageCallback : Bool) : Connection :=
  (((create sockfd).setMessageCallback messageCallback).setChannel
    { Channel.create sockfd with events := kReadEvent, index := .kAdded }).establishConnection

end Connection

/-- The kernel takes no more bytes than it is given. -/
def WriteResult.Fits (write : WriteResult) (len : Nat) : Prop := ∀ n ∈ write.count, n ≤ len

instance (write : WriteResult) (len : Nat) : Decidable (write.Fits len) :=
  inferInstanceAs (Decidable (∀ n ∈ write.count, n ≤ len))

/-- A positive count of bytes, no more than the buffer holds. -/
def ReadResult.Fits : ReadResult → Prop
  | .data bytes => 0 < bytes.length ∧ bytes.length ≤ kBufferSize
  | _ => True

instance (read : ReadResult) : Decidable read.Fits := by
  cases read <;> unfold ReadResult.Fits <;> infer_instance

theorem send_cases (c : Connection) (data : List UInt8) (write : WriteResult) :
    (c.send data write).1 = c ∨
      ∃ rest, (c.send data write).1 = { c with outputBuffer := c.outputBuffer ++ rest } := by
  unfold Connection.send
  split
  · exact .inl rfl
  · split
    · split
      · split
        · exact .inl rfl
        · exact .inr ⟨_, rfl⟩
      · split
        · exact .inl rfl
        · exact .inr ⟨_, rfl⟩
    · exact .inr ⟨_, rfl⟩

@[simp] theorem send_state (c : Connection) (data : List UInt8) (write : WriteResult) :
    (c.send data write).1.state = c.state := by
  rcases send_cases c data write with h | ⟨rest, h⟩ <;> rw [h]

@[simp] theorem send_channel (c : Connection) (data : List UInt8) (write : WriteResult) :
    (c.send data write).1.channel = c.channel := by
  rcases send_cases c data write with h | ⟨rest, h⟩ <;> rw [h]

@[simp] theorem send_sockfd (c : Connection) (data : List UInt8) (write : WriteResult) :
    (c.send data write).1.sockfd = c.sockfd := by
  rcases send_cases c data write with h | ⟨rest, h⟩ <;> rw [h]

theorem close_cases (c : Connection) :
    c.state = .kConnected ∧ c.close = { c with state := .kDisconnecting } ∨
      c.state ≠ .kConnected ∧ c.close = c := by
  unfold Connection.close Connection.beginClose
  by_cases h : c.state = .kConnected
  · simp [h]
  · simp [h]

@[simp] theorem close_channel (c : Connection) : c.close.channel = c.channel := by
  rcases close_cases c with ⟨_, h⟩ | ⟨_, h⟩ <;> rw [h]

theorem close_not_connected (c : Connection) : c.close.state ≠ .kConnected := by
  rcases close_cases c with ⟨_, h⟩ | ⟨hne, h⟩ <;> rw [h]
  · simp
  · exact hne

theorem closeConnection_cases (c : Connection) :
    c.state = .kConnected ∧ c.closeConnection = { c with state := .kDisconnected } ∨
      c.state ≠ .kConnected ∧ c.closeConnection = c := by
  unfold Connection.closeConnection Connection.beginClose
  by_cases h : c.state = .kConnected
  · simp [h, Connection.endClose]
  · simp [h]

/-- What follows a handler has a property where the message and the close give it or keep it. -/
theorem react_induction (holds : Connection → Prop) {onMessage onClose : Connection → Connection}
    {r : Connection × Connection.Reaction} (h : holds r.1)
    (hmessage : holds r.1 → holds (onMessage r.1)) (hclose : holds r.1 → holds (onClose r.1)) :
    holds (Connection.react onMessage onClose r) := by
  obtain ⟨c, reaction⟩ := r
  cases reaction with
  | nothing => exact h
  | message => exact hmessage h
  | close => exact hclose h

theorem handleRead_eq (c : Connection) (read : ReadResult) :
    ∃ bytes, (c.handleRead read).1 = { c with inputBuffer := c.inputBuffer ++ bytes } := by
  cases read with
  | data bytes => exact ⟨bytes, rfl⟩
  | closed => exact ⟨[], by simp [Connection.handleRead]⟩
  | failed errno =>
    refine ⟨[], ?_⟩
    simp only [Connection.handleRead, List.append_nil]
    split <;> rfl

theorem handleWrite_eq (c : Connection) (write : WriteResult) :
    ∃ n, (c.handleWrite write).1 = { c with outputBuffer := c.outputBuffer.drop n } := by
  unfold Connection.handleWrite
  split
  · exact ⟨0, rfl⟩
  · split
    · exact ⟨_, rfl⟩
    · split <;> exact ⟨0, rfl⟩

theorem handleRead_close {c : Connection} {read : ReadResult}
    (h : (c.handleRead read).2 = .close) : (c.handleRead read).1 = c := by
  cases read with
  | data bytes =>
    simp only [Connection.handleRead] at h
    split at h <;> cases h
  | closed => rfl
  | failed errno =>
    simp only [Connection.handleRead]
    split <;> rfl

theorem handleWrite_close {c : Connection} {write : WriteResult}
    (h : (c.handleWrite write).2 = .close) : (c.handleWrite write).1 = c := by
  by_cases hempty : c.outputBuffer = []
  · simp [Connection.handleWrite, hempty]
  · simp only [Connection.handleWrite, hempty, if_false] at h ⊢
    split at h
    · cases h
    · split <;> rfl

end TcpConnection
