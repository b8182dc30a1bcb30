import OrderEngine.ConnectionChannels

/-!
# No message after the close

`send` and `closeConnection` do nothing unless the connection is up; `handleRead`
reads and calls `message_callback_` whatever the state. So the messages of a
connection stop at its close exactly as long as no handler reads bytes for a closed
connection.
-/
namespace MessageOrder

open EpollPoller TcpConnection TcpServer ServerShape ConnectionRegistry ConnectionChannels

/-- In the order in which the server made its callbacks, no `message_callback_` of a
connection comes after its `close_callback_`. -/
def NoLateMessage (s : Server) : Prop :=
  s.notices.Pairwise (fun earlier later => ∀ c, earlier = .close c → later ≠ .message c)

/-- The connection for which the step reads bytes, if its `message_callback_` is set. -/
def reads (s : Server) : Action → Option ConnId
  | .callback j (.data _) _ =>
    match (s.loops j).stack with
    | .event c (.read :: _) :: _ => if (s.conn c).messageCallback then some c else none
    | _ => none
  | _ => none

/-- The step does not read bytes for a connection that has been closed. -/
def ReadsInTime (s : Server) (a : Action) : Prop :=
  (step s a).isSome = true → ∀ c, reads s a = some c → live (s.conn c).state = true

/-- The step closes a connection that is up. -/
def Closes (s : Server) (a : Action) (c : ConnId) : Prop :=
  asksToClose s a = some c ∧ (s.conn c).state = .kConnected

/-- What a step tells the user, and whether it closes a connection. -/
inductive Says (s : Server) (a : Action) (s' : Server) : Prop where
  | quiet (added : List Notice) (hadded : ∀ n ∈ added, ∃ d connected, n = .connection d connected)
      (hnotices : s'.notices = s.notices ++ added) (hcloses : ∀ c, ¬ Closes s a c)
  | closes (c : ConnId) (hcloses : Closes s a c) (hnotices : s'.notices = s.notices ++ [.close c])
  | passes (c : ConnId) (hreads : reads s a = some c)
      (hnotices : s'.notices = s.notices ++ [.message c]) (hcloses : ∀ d, ¬ Closes s a d)

theorem not_closes {s : Server} {a : Action} (h : asksToClose s a = none) (c : ConnId) :
    ¬ Closes s a c := by
  rintro ⟨hasked, _⟩
  rw [h] at hasked
  cases hasked

theorem says_nothing {s s' : Server} {a : Action} (hnotices : s'.notices = s.notices)
    (hcloses : ∀ c, ¬ Closes s a c) : Says s a s' := by
  refine .quiet [] ?_ ?_ hcloses
  · intro n hn
    cases hn
  · rw [hnotices, List.append_nil]

theorem says_connection {s s' : Server} {a : Action} {c : ConnId} {connected : Bool}
    (hnotices : s'.notices = s.notices ++ [.connection c connected])
    (hasked : asksToClose s a = none) : Says s a s' := by
  refine .quiet [.connection c connected] ?_ hnotices (not_closes hasked)
  intro n hn
  exact ⟨c, connected, List.mem_singleton.mp hn⟩

theorem says_closeConnection {s : Server} {a : Action} {c : ConnId}
    (hasked : asksToClose s a = some c) (j : Nat) (stack : List Frame) :
    Says s a (s.closeConnection j c stack) := by
  rcases closeConnection_cases s j c stack with ⟨hup, heq⟩ | ⟨hdown, heq⟩
  · rw [heq]
    exact .closes c ⟨hasked, hup⟩ rfl
  · rw [heq]
    refine says_nothing rfl ?_
    rintro d ⟨hasked', hup⟩
    rw [hasked] at hasked'
    cases hasked'
    exact hdown hup

/-- Only a read of bytes leads to `message_callback_`. -/
theorem reads_of_message {s : Server} {j : Nat} {c : ConnId} {cb : Callback}
    {todo : List Callback} {stack : List Frame} {read : ReadResult} {write : WriteResult}
    (hstack : (s.loops j).stack = .event c (cb :: todo) :: stack)
    (h : (Server.callback (s.conn c) read write cb).2 = .message) :
    reads s (.callback j read write) = some c := by
  cases cb with
  | close => cases h
  | error => cases h
  | read =>
    cases read with
    | data bytes =>
      have hset : (s.conn c).messageCallback = true := by
        by_contra hunset
        simp [Server.callback, Connection.handleRead, hunset] at h
      simp [reads, hstack, hset]
    | closed => cases h
    | failed errno =>
      simp only [Server.callback, Connection.handleRead] at h
      split at h <;> cases h
  | write =>
    simp only [Server.callback, Connection.handleWrite] at h
    split at h
    · cases h
    · split at h
      · cases h
      · split at h <;> cases h

theorem says_callback {s : Server} {j : Nat} {c : ConnId} {cb : Callback} {todo : List Callback}
    {stack : List Frame} {read : ReadResult} {write : WriteResult}
    (hstack : (s.loops j).stack = .event c (cb :: todo) :: stack) :
    Says s (.callback j read write)
      (s.react j c (.event c todo :: stack) (Server.callback (s.conn c) read write cb)) := by
  have hasked : asksToClose s (.callback j read write) =
      if (Server.callback (s.conn c) read write cb).2 = .close then some c else none := by
    simp only [asksToClose, hstack]
  have hclose := fun h => @react_close s c read write cb h j (.event c todo :: stack)
  have hreads := @reads_of_message s j c cb todo stack read write hstack
  generalize Server.callback (s.conn c) read write cb = r at hasked hclose hreads ⊢
  obtain ⟨conn, reaction⟩ := r
  cases reaction with
  | nothing => exact says_nothing rfl (not_closes hasked)
  | message => exact .passes c (hreads rfl) rfl (not_closes hasked)
  | close =>
    rw [hclose rfl]
    exact says_closeConnection hasked j _

theorem says_step {s s' : Server} {a : Action} (h : Outcome s a s') : Says s a s' := by
  cases h with
  | accept | register | poll | dispatch | eventDone | userSend =>
    exact says_nothing rfl (not_closes rfl)
  | runTask => exact says_connection rfl rfl
  | callback j read write c cb todo stack hstack => exact says_callback hstack
  | userClose j c => exact says_closeConnection rfl j _
  | userReturns j f stack => cases f <;> exact says_nothing rfl (not_closes rfl)
  | remove => exact says_connection rfl rfl

theorem close_told {s s' : Server} {a : Action} (h : Says s a s') (c : ConnId) :
    .close c ∈ s'.notices ↔ .close c ∈ s.notices ∨ Closes s a c := by
  cases h with
  | quiet added hadded hnotices hcloses =>
    have hno : .close c ∉ added := by
      intro hmem
      obtain ⟨d, connected, hn⟩ := hadded _ hmem
      cases hn
    simp [hnotices, hno, hcloses]
  | closes d hcloses hnotices =>
    have hone : Closes s a c ↔ c = d := by
      constructor
      · rintro ⟨hasked, _⟩
        rw [hcloses.1] at hasked
        exact (Option.some.inj hasked).symm
      · rintro rfl
        exact hcloses
    simp [hnotices, hone]
  | passes d hreads hnotices hcloses => simp [hnotices, hcloses]

/-- The connections that have told their close are the closed ones. -/
def Told (s : Server) : Prop :=
  ∀ c, .close c ∈ s.notices ↔ c < s.accepted ∧ live (s.conn c).state = false

theorem told_start : Told start := by
  intro c
  simp [start]

theorem told_step {s s' : Server} {a : Action} (hshape : Shape s) (h : Told s)
    (houtcome : Outcome s a s') : Told s' := by
  intro c
  rw [close_told (says_step houtcome), h c]
  by_cases hc : c < s.accepted
  · have hc' : c < s'.accepted := Nat.lt_of_lt_of_le hc (accepted_le houtcome)
    simp only [hc, hc', true_and]
    exact (dead_iff hshape houtcome hc).symm
  · -- a connection that is accepted just now is up
    refine iff_of_false ?_ ?_
    · rintro (⟨hold, _⟩ | ⟨hasked, hup⟩)
      · exact hc hold
      · exact hc (closed_when_asked hshape houtcome hasked hup).1
    · rintro ⟨hnew, hdead⟩
      rw [live_of_new houtcome hnew hc] at hdead
      cases hdead

/-- A read of bytes is passed on to the user. -/
theorem notices_of_reads {s s' : Server} {a : Action} {c : ConnId} (hshape : Shape s)
    (h : Outcome s a s') (hreads : reads s a = some c) :
    c < s.accepted ∧ s'.notices = s.notices ++ [.message c] := by
  cases h with
  | callback j read write d cb todo stack hstack =>
    cases read with
    | data bytes =>
      have howned : Owned s j d := (owned_of_stack hshape hstack).1
      simp only [reads, hstack] at hreads
      split at hreads
      · rename_i hevent
        cases hevent
        split at hreads
        · rename_i hset
          cases hreads
          refine ⟨howned.1, ?_⟩
          simp [Server.callback, Connection.handleRead, hset, Server.react, Server.notify,
            Server.setStack, Server.setLoop, Server.setConn]
        · cases hreads
      · cases hreads
    | closed => cases hreads
    | failed errno => cases hreads
  | _ => cases hreads

/-- Notices at the end of others, none of them the close of a connection. -/
theorem pairwise_notices {notices added : List Notice} (hadded : ∀ n ∈ added, ∀ c, n ≠ .close c)
    (h : notices.Pairwise (fun earlier later => ∀ c, earlier = .close c → later ≠ .message c))
    (hlast : ∀ c, .close c ∈ notices → .message c ∉ added) :
    (notices ++ added).Pairwise
      (fun earlier later => ∀ c, earlier = .close c → later ≠ .message c) := by
  refine List.pairwise_append.mpr ⟨h, ?_, ?_⟩
  · apply List.pairwise_of_forall_mem_list
    intro n hn m _ c hclose
    exact absurd hclose (hadded n hn c)
  · rintro n hn m hm c rfl rfl
    exact hlast c hn hm

/-- One step keeps the order exactly when it reads in time. -/
theorem noLateMessage_step {s s' : Server} {a : Action} (hshape : Shape s) (htold : Told s)
    (h : NoLateMessage s) (hstep : step s a = some s') :
    NoLateMessage s' ↔ ReadsInTime s a := by
  have houtcome := outcome_of_step hstep
  have hsome : (step s a).isSome = true := by
    rw [hstep]
    rfl
  constructor
  · intro h' _ c hreads
    obtain ⟨hc, hnotices⟩ := notices_of_reads hshape houtcome hreads
    by_contra hdead
    have hmem : .close c ∈ s.notices := (htold c).mpr ⟨hc, by simpa using hdead⟩
    unfold NoLateMessage at h'
    rw [hnotices] at h'
    exact (List.pairwise_append.mp h').2.2 _ hmem (.message c) (by simp) c rfl rfl
  · intro htime
    unfold NoLateMessage
    cases says_step houtcome with
    | quiet added hadded hnotices =>
      rw [hnotices]
      refine pairwise_notices ?_ h ?_
      · intro n hn c hclose
        obtain ⟨d, connected, hn⟩ := hadded n hn
        rw [hclose] at hn
        cases hn
      · intro c _ hmem
        obtain ⟨d, connected, hn⟩ := hadded _ hmem
        cases hn
    | closes d hcloses hnotices =>
      rw [hnotices]
      refine List.pairwise_append.mpr ⟨h, List.pairwise_singleton _ _, ?_⟩
      intro n hn m hm c _
      rw [List.mem_singleton.mp hm]
      simp
    | passes d hreads hnotices =>
      rw [hnotices]
      apply pairwise_notices (by simp) h
      intro c hclose hmem
      obtain rfl : c = d := by simpa using hmem
      have hdead := ((htold c).mp hclose).2
      rw [htime hsome c hreads] at hdead
      cases hdead

/-- The server calls no `message_callback_` after the `close_callback_` of its connection
exactly in the runs in which no handler reads bytes for a closed connection. -/
theorem no_late_message_iff {acts : List Action} :
    Runs.Throughout step NoLateMessage start acts ↔ Runs.Along step ReadsInTime start acts := by
  have hstart : NoLateMessage start := List.Pairwise.nil
  constructor
  · refine Runs.along_of_throughout (fun s => Shape s ∧ Told s) ?_ ?_ ⟨shape_start, told_start⟩
    · rintro s a s' ⟨hshape, htold⟩ hstep
      exact ⟨shape_step s a s' hshape hstep, told_step hshape htold (outcome_of_step hstep)⟩
    · rintro s a ⟨hshape, htold⟩ h h' hsome
      obtain ⟨s', hstep⟩ := Option.isSome_iff_exists.mp hsome
      exact (noLateMessage_step hshape htold h hstep).mp (h' s' hstep) hsome
  · intro hal
    refine Runs.throughout_mono (fun s hs => hs.2.2)
      (Runs.throughout_of_step (fun s => Shape s ∧ Told s ∧ NoLateMessage s) ?_
        ⟨shape_start, told_start, hstart⟩ hal)
    rintro s a s' ⟨hshape, htold, h⟩ htime hstep
    exact ⟨shape_step s a s' hshape hstep, told_step hshape htold (outcome_of_step hstep),
      (noLateMessage_step hshape htold h hstep).mpr htime⟩

/-- The message callback of a connection closes it, and its peer sends once more. -/
def closedByMessage : List Action :=
  [.accept 7 0 true, .register, .runTask 0 true, .userReturns 0, .poll 0 [(0, epollIn)],
    .dispatch 0, .callback 0 (.data [1]) ⟨none, .wouldBlock⟩, .userClose 0 0, .remove 0,
    .userReturns 0, .userReturns 0, .eventDone 0, .poll 0 [(0, epollIn)], .dispatch 0,
    .callback 0 (.data [2]) ⟨none, .wouldBlock⟩]

theorem message_after_close : ∃ s, Runs.exec step start closedByMessage = some s ∧
    s.notices = [.connection 0 true, .message 0, .close 0, .connection 0 false, .message 0] ∧
      ¬ NoLateMessage s := by
  refine ⟨_, rfl, by decide, ?_⟩
  intro h
  have hnotices : [Notice.connection 0 true, .message 0, .close 0, .connection 0 false,
      .message 0].Pairwise (fun earlier later => ∀ c, earlier = .close c → later ≠ .message c) := h
  simp at hnotices

end MessageOrder
