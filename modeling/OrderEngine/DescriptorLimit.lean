import OrderEngine.SocketRelease
import Mathlib.Data.List.Nodup

/-!
# The server runs out of descriptors

No accepted connection is ever destroyed, so every accept takes one descriptor more of those that
the process may open, whatever becomes of the connections.
-/
namespace DescriptorLimit

open TcpConnection TcpServer ServerShape ConnectionRegistry ConnectionChannels SocketRelease

/-- The kernel gives out the descriptors below the limit of the process. -/
def Within (limit : Nat) : Action → Prop
  | .accept fd _ _ => fd < limit
  | _ => True

def FdsWithin (limit : Nat) (s : Server) : Prop := ∀ c < s.accepted, (s.conn c).sockfd < limit

theorem fdsWithin_step (limit : Nat) (s : Server) (a : Action) (t : Server)
    (hs : FdsWithin limit s) (hwithin : Within limit a) (h : step s a = some t) :
    FdsWithin limit t := by
  have houtcome := outcome_of_step h
  intro c hc
  by_cases hold : c < s.accepted
  · rw [(place_kept houtcome hold).2]
    exact hs c hold
  · cases ha : internal a with
    | true =>
      rw [(sameMap_internal houtcome ha).accepted] at hc
      exact absurd hc hold
    | false =>
      cases houtcome with
      | accept fd reactor messageCallback =>
        have hlast : c = s.accepted := Nat.eq_of_lt_succ_of_not_lt hc hold
        rw [hlast, (handOver_last s fd reactor messageCallback).1]
        exact hwithin
      | register | remove => exact absurd hc hold
      | _ => cases ha

/-- The descriptors of the accepted connections, in the order of the accepts. -/
def fds (s : Server) : List Nat := (List.range s.accepted).map (fun c => (s.conn c).sockfd)

theorem nodup_fds {s : Server} (h : Shape s) : (fds s).Nodup := by
  apply List.Nodup.map_on ?_ List.nodup_range
  intro c hc d hd hsame
  exact h.fds c (List.mem_range.mp hc) d (List.mem_range.mp hd) hsame

theorem fds_subset {limit : Nat} {s : Server} (h : FdsWithin limit s) :
    fds s ⊆ List.range limit := by
  intro fd hfd
  obtain ⟨c, hc, rfl⟩ := List.mem_map.mp hfd
  exact List.mem_range.mpr (h c (List.mem_range.mp hc))

/-- A descriptor of an accepted connection is not given out again. -/
theorem not_free {s : Server} (h : Shape s) {fd : Nat} (hfd : fd ∈ fds s) : ¬ s.FdFree fd := by
  obtain ⟨c, hc, rfl⟩ := List.mem_map.mp hfd
  intro hfree
  exact hfree c (List.mem_range.mp hc) (strongRefs_pos h (List.mem_range.mp hc)) rfl

/-- In every run of the server every socket that it has accepted is still open, also those of the
closed connections; it accepts no more connections than the process may have descriptors, and when
it has accepted as many it accepts none any more. -/
theorem descriptors_run_out {limit : Nat} {acts : List Action} {s : Server}
    (hrun : Runs.exec step start acts = some s) (hwithin : ∀ a ∈ acts, Within limit a) :
    openSockets s = List.range s.accepted ∧ s.accepted ≤ limit ∧
      (s.accepted = limit → ∀ fd < limit, ∀ reactor messageCallback,
        step s (.accept fd reactor messageCallback) = none) := by
  have hshape : Shape s := shape_reachable ⟨start, acts, rfl, hrun⟩
  have hstart : FdsWithin limit start := by
    intro c hc
    cases hc
  have hbelow : FdsWithin limit s := Runs.throughout_last
    (Runs.throughout_of_step _ (fdsWithin_step limit) hstart (Runs.along_of_forall hwithin)) hrun
  have hsubperm := List.subperm_of_subset (nodup_fds hshape) (fds_subset hbelow)
  have hlength : (fds s).length = s.accepted := by simp [fds]
  refine ⟨openSockets_eq hshape, ?_, ?_⟩
  · have hle := hsubperm.length_le
    rwa [hlength, List.length_range] at hle
  · intro hall fd hfd reactor messageCallback
    have hperm := hsubperm.perm_of_length_le (by rw [hlength, List.length_range, hall])
    have htaken : fd ∈ fds s := hperm.mem_iff.mpr (List.mem_range.mpr hfd)
    exact if_neg (fun hmay => not_free hshape htaken hmay.2)

/-- Two descriptors, and a connection that is closed before the second one comes. -/
def closedBefore : List Action :=
  [.accept 0 0 true, .register, .runTask 0 true, .userClose 0 0, .remove 0, .userReturns 0,
    .userReturns 0, .accept 1 1 true, .register]

theorem descriptors_run_out_closedBefore : ∃ s, Runs.exec step start closedBefore = some s ∧
    (s.conn 0).state = .kDisconnected ∧ openSockets s = [0, 1] ∧
    ∀ fd < 2, step s (.accept fd 0 true) = none := by
  have hrun : Runs.exec step start closedBefore = some _ := rfl
  have hwithin : ∀ a ∈ closedBefore, Within 2 a := by
    intro a ha
    simp only [closedBefore, List.mem_cons, List.not_mem_nil, or_false] at ha
    rcases ha with rfl | rfl | rfl | rfl | rfl | rfl | rfl | rfl | rfl <;> simp [Within]
  obtain ⟨hopen, _, hnone⟩ := descriptors_run_out hrun hwithin
  exact ⟨_, hrun, by decide, hopen, fun fd hfd => hnone rfl fd hfd 0 true⟩

end DescriptorLimit
