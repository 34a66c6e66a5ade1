import ChronoShift.Basic
import ChronoShift.Pgp.PgpIdentity
import Mathlib.Data.List.Rotate

/-!
# Named networks

The networks of `dcnet/network.rs`: a group of members with an admin, pending invitations, a minimal
trust level, and a leader that rotates in the order in which the members joined.

The clock is an argument. An operation returns its result next to the network after it.

* `DcNetwork.WellFormed`: the members are listed once in both lists, the admin and the leader are
  members, and no member has a pending invitation;
* `DcNetwork.WellFormed.call`: every operation keeps this;
* `DcNetwork.wellFormed_run`: it holds in every run, and the leader can always rotate;
* `DcNetwork.rotation_fair`: as many rotations as there are members let each of them lead once.
-/

namespace ChronoShift

/-- The name of a level, as it is shown. -/
def TrustLevel.debug : TrustLevel → String
  | .never => "Never"
  | .unknown => "Unknown"
  | .marginal => "Marginal"
  | .full => "Full"
  | .ultimate => "Ultimate"

/-- A network of friends. -/
structure DcNetwork where
  name : String
  adminUid : String
  created : ℕ
  topic : String
  /-- The members, with the admin. -/
  members : List String
  /-- Who has been invited, and by whom. -/
  pendingInvites : HashMap String String
  /-- The level that is needed to join. -/
  minTrust : TrustLevel
  minParticipants : ℕ
  maxDropouts : ℕ
  roundIntervalMs : ℕ
  currentLeader : String
  /-- The members, in the order in which they joined. -/
  memberJoinOrder : List String

namespace DcNetwork

/-- A new network, with its admin as the only member. -/
def new (name adminUid : String) (now : ℕ) : DcNetwork where
  name := name
  adminUid := adminUid
  created := now
  topic := ""
  members := [adminUid]
  pendingInvites := ∅
  minTrust := .marginal
  minParticipants := 2
  maxDropouts := 1
  roundIntervalMs := 3000
  currentLeader := adminUid
  memberJoinOrder := [adminUid]

def isMember (n : DcNetwork) (uid : String) : Bool := uid ∈ n.members

def isAdmin (n : DcNetwork) (uid : String) : Bool := n.adminUid = uid

def hasPendingInvite (n : DcNetwork) (uid : String) : Bool := uid ∈ n.pendingInvites

/-- The place after that of the leader, in the order of joining. -/
def nextIdx (n : DcNetwork) : Option (Fin n.memberJoinOrder.length) :=
  (n.memberJoinOrder.finIdxOf? n.currentLeader).map fun (i : Fin n.memberJoinOrder.length) =>
    ⟨(i.val + 1) % n.memberJoinOrder.length, Nat.mod_lt _ i.pos⟩

/-- The next leader, in the order of joining. -/
def nextLeader (n : DcNetwork) : Option String :=
  match n.nextIdx with
  | none => none
  | some i => n.memberJoinOrder[(i : ℕ)]?

/-- Invite somebody; only the admin may. -/
def inviteMember (n : DcNetwork) (uid invitedBy : String) : Except String Unit × DcNetwork :=
  if !n.isAdmin invitedBy then (.error s!"Only admin ({n.adminUid}) can invite members", n)
  else if n.isMember uid then (.error s!"{uid} is already a member", n)
  else (.ok (), { n with pendingInvites := n.pendingInvites.insert uid invitedBy })

/-- Take in somebody who has been invited and is trusted enough. -/
def acceptJoin (n : DcNetwork) (uid : String) (trustLevel : TrustLevel) :
    Except String Unit × DcNetwork :=
  if !n.hasPendingInvite uid then (.error s!"{uid} has no pending invitation", n)
  else if trustLevel < n.minTrust then
    (.error (s!"{uid} has trust level {trustLevel.debug}, but network requires " ++
      n.minTrust.debug), n)
  else
    let n := { n with pendingInvites := n.pendingInvites.erase uid }
    if n.isMember uid then (.ok (), n)
    else
      (.ok (), { n with
        members := n.members ++ [uid]
        memberJoinOrder := n.memberJoinOrder ++ [uid] })

/-- Remove somebody; only the admin may, and not themselves. -/
def kickMember (n : DcNetwork) (uid kickedBy : String) : Except String Unit × DcNetwork :=
  if !n.isAdmin kickedBy then (.error s!"Only admin ({n.adminUid}) can kick members", n)
  else if uid = n.adminUid then (.error "Admin cannot kick themselves", n)
  else
    let memberJoinOrder := n.memberJoinOrder.filter (· ≠ uid)
    (.ok (), { n with
      members := n.members.filter (· ≠ uid)
      memberJoinOrder
      pendingInvites := n.pendingInvites.erase uid
      -- a leader that is removed is replaced by the member that joined first
      currentLeader :=
        if uid = n.currentLeader then memberJoinOrder.head?.getD "" else n.currentLeader })

/-- Make another member the admin, and the leader. -/
def transferAdmin (n : DcNetwork) (newAdmin currentAdmin : String) :
    Except String Unit × DcNetwork :=
  if !n.isAdmin currentAdmin then (.error "Only current admin can transfer admin rights", n)
  else if !n.isMember newAdmin then (.error s!"{newAdmin} is not a member of this network", n)
  else (.ok (), { n with adminUid := newAdmin, currentLeader := newAdmin })

def setTopic (n : DcNetwork) (topic setter : String) : Except String Unit × DcNetwork :=
  if !n.isAdmin setter then (.error "Only admin can set topic", n)
  else (.ok (), { n with topic })

def setMinTrust (n : DcNetwork) (level : TrustLevel) (setter : String) :
    Except String Unit × DcNetwork :=
  if !n.isAdmin setter then (.error "Only admin can change trust requirements", n)
  else (.ok (), { n with minTrust := level })

/-- Rotate to the next leader. -/
def rotateLeader (n : DcNetwork) : Option String × DcNetwork :=
  match n.nextIdx with
  | none => (none, n)
  | some i =>
    let next := n.memberJoinOrder.get i
    (some next, { n with currentLeader := next })

/-- Rotate `k` times, and list what the rotations return. -/
def rotations (n : DcNetwork) : ℕ → List (Option String) × DcNetwork
  | 0 => ([], n)
  | k + 1 =>
    let (next, n) := n.rotateLeader
    let (rest, n) := n.rotations k
    (next :: rest, n)

def setLeader (n : DcNetwork) (uid : String) : Except String Unit × DcNetwork :=
  if !n.isMember uid then (.error s!"{uid} is not a member", n)
  else (.ok (), { n with currentLeader := uid })

end DcNetwork

/-- An operation on a network. -/
inductive NetworkCall where
  | inviteMember (uid invitedBy : String)
  | acceptJoin (uid : String) (trustLevel : TrustLevel)
  | kickMember (uid kickedBy : String)
  | transferAdmin (newAdmin currentAdmin : String)
  | setTopic (topic setter : String)
  | setMinTrust (level : TrustLevel) (setter : String)
  | rotateLeader
  | setLeader (uid : String)

namespace DcNetwork

/-- Carry out an operation. A rotation has no error to return. -/
def call (n : DcNetwork) : NetworkCall → Except String Unit × DcNetwork
  | .inviteMember uid invitedBy => n.inviteMember uid invitedBy
  | .acceptJoin uid trustLevel => n.acceptJoin uid trustLevel
  | .kickMember uid kickedBy => n.kickMember uid kickedBy
  | .transferAdmin newAdmin currentAdmin => n.transferAdmin newAdmin currentAdmin
  | .setTopic topic setter => n.setTopic topic setter
  | .setMinTrust level setter => n.setMinTrust level setter
  | .rotateLeader => (.ok (), n.rotateLeader.2)
  | .setLeader uid => n.setLeader uid

/-- The network after a sequence of operations, successful or not. -/
def run (n : DcNetwork) (calls : List NetworkCall) : DcNetwork :=
  calls.foldl (fun n c => (n.call c).2) n

/-- The invariant of a network. -/
structure WellFormed (n : DcNetwork) : Prop where
  joinOrder : n.memberJoinOrder = n.members
  nodup : n.members.Nodup
  admin : n.adminUid ∈ n.members
  leader : n.currentLeader ∈ n.members
  pending : ∀ uid ∈ n.members, uid ∉ n.pendingInvites

variable {n : DcNetwork}

/-- An operation that returns an error leaves the network as it is. -/
theorem call_eq_of_error {c : NetworkCall} {e : String} (h : (n.call c).1 = .error e) :
    (n.call c).2 = n := by
  -- every check comes before the first change
  cases c with
  | inviteMember uid invitedBy =>
    rw [call, inviteMember] at h ⊢
    split_ifs at h ⊢
    · rfl
    · rfl
  | acceptJoin uid trustLevel =>
    rw [call, acceptJoin] at h ⊢
    dsimp only at h ⊢
    split_ifs at h ⊢
    · rfl
    · rfl
  | kickMember uid kickedBy =>
    rw [call, kickMember] at h ⊢
    dsimp only at h ⊢
    split_ifs at h ⊢
    · rfl
    · rfl
  | transferAdmin newAdmin currentAdmin =>
    rw [call, transferAdmin] at h ⊢
    split_ifs at h ⊢
    · rfl
    · rfl
  | setTopic topic setter =>
    rw [call, setTopic] at h ⊢
    split_ifs at h ⊢
    rfl
  | setMinTrust level setter =>
    rw [call, setMinTrust] at h ⊢
    split_ifs at h ⊢
    rfl
  | rotateLeader => cases h
  | setLeader uid =>
    rw [call, setLeader] at h ⊢
    split_ifs at h ⊢
    rfl

theorem wellFormed_new (name adminUid : String) (now : ℕ) :
    (new name adminUid now).WellFormed where
  joinOrder := rfl
  nodup := List.nodup_singleton adminUid
  admin := List.mem_singleton_self adminUid
  leader := List.mem_singleton_self adminUid
  pending := fun _ _ => AList.notMem_empty _

namespace WellFormed

/-- Only who is not a member is invited. -/
theorem inviteMember (h : n.WellFormed) (uid invitedBy : String) :
    (n.inviteMember uid invitedBy).2.WellFormed := by
  rw [DcNetwork.inviteMember]
  split_ifs with hadmin hmember
  · exact h
  · exact h
  · have huid : uid ∉ n.members := by simpa [isMember] using hmember
    refine ⟨h.joinOrder, h.nodup, h.admin, h.leader, fun u hu hpending => ?_⟩
    rcases (AList.mem_insert _).mp hpending with rfl | hold
    · exact huid hu
    · exact h.pending u hu hold

/-- Who is taken in was invited, and is not a member yet. -/
theorem acceptJoin (h : n.WellFormed) (uid : String) (trustLevel : TrustLevel) :
    (n.acceptJoin uid trustLevel).2.WellFormed := by
  rw [DcNetwork.acceptJoin]
  dsimp only
  split_ifs with hinvited htrust hmember
  · exact h
  · exact h
  · refine ⟨h.joinOrder, h.nodup, h.admin, h.leader, fun u hu hpending => ?_⟩
    exact h.pending u hu (AList.mem_erase.mp hpending).2
  · have huid : uid ∉ n.members := by simpa [isMember] using hmember
    refine ⟨?_, ?_, ?_, ?_, fun u hu hpending => ?_⟩
    · exact congrArg (· ++ [uid]) h.joinOrder
    · exact List.nodup_append.mpr ⟨h.nodup, List.nodup_singleton uid, fun a ha b hb => by
        rintro rfl
        exact huid (List.mem_singleton.mp hb ▸ ha)⟩
    · exact List.mem_append_left _ h.admin
    · exact List.mem_append_left _ h.leader
    -- the invitation is used up
    · obtain ⟨hne, hold⟩ := AList.mem_erase.mp hpending
      rcases List.mem_append.mp hu with hu | hu
      · exact h.pending u hu hold
      · exact hne (List.mem_singleton.mp hu)

/-- Without `uid`, the leader or else the first member that is left leads. -/
theorem leader_kickMember (h : n.WellFormed) {uid : String} (huid : uid ≠ n.adminUid) :
    (if uid = n.currentLeader then (n.memberJoinOrder.filter (· ≠ uid)).head?.getD ""
      else n.currentLeader) ∈ n.members.filter (· ≠ uid) := by
  split
  next =>
    rw [h.joinOrder]
    cases hleft : n.members.filter (· ≠ uid) with
    -- the admin is left
    | nil =>
      have hadmin : n.adminUid ∈ n.members.filter (· ≠ uid) :=
        List.mem_filter.mpr ⟨h.admin, decide_eq_true huid.symm⟩
      rw [hleft] at hadmin
      cases hadmin
    | cons first rest => exact List.mem_cons_self
  next hleader => exact List.mem_filter.mpr ⟨h.leader, decide_eq_true (Ne.symm hleader)⟩

theorem kickMember (h : n.WellFormed) (uid kickedBy : String) :
    (n.kickMember uid kickedBy).2.WellFormed := by
  rw [DcNetwork.kickMember]
  split
  next => exact h
  next =>
    split
    next => exact h
    next hself =>
      refine ⟨?_, h.nodup.filter _, ?_, h.leader_kickMember hself, fun u hu hpending => ?_⟩
      · exact congrArg (List.filter (· ≠ uid)) h.joinOrder
      · exact List.mem_filter.mpr ⟨h.admin, decide_eq_true (Ne.symm hself)⟩
      · exact h.pending u (List.mem_of_mem_filter hu) (AList.mem_erase.mp hpending).2

theorem transferAdmin (h : n.WellFormed) (newAdmin currentAdmin : String) :
    (n.transferAdmin newAdmin currentAdmin).2.WellFormed := by
  rw [DcNetwork.transferAdmin]
  split_ifs with hadmin hmember
  · exact h
  · exact h
  · have hnew : newAdmin ∈ n.members := by simpa [isMember] using hmember
    exact ⟨h.joinOrder, h.nodup, hnew, hnew, h.pending⟩

/-- A network with another leader among the members. -/
theorem withLeader (h : n.WellFormed) {uid : String} (huid : uid ∈ n.members) :
    WellFormed { n with currentLeader := uid } :=
  ⟨h.joinOrder, h.nodup, h.admin, huid, h.pending⟩

theorem rotateLeader (h : n.WellFormed) : n.rotateLeader.2.WellFormed := by
  rw [DcNetwork.rotateLeader]
  split
  next => exact h
  next i _ => exact h.withLeader (h.joinOrder ▸ List.get_mem _ i)

theorem setLeader (h : n.WellFormed) (uid : String) : (n.setLeader uid).2.WellFormed := by
  rw [DcNetwork.setLeader]
  split_ifs with hmember
  · exact h
  · exact h.withLeader (by simpa [isMember] using hmember)

/-- Every operation keeps the invariant. -/
theorem call (h : n.WellFormed) (c : NetworkCall) : (n.call c).2.WellFormed := by
  cases c with
  | inviteMember uid invitedBy => exact h.inviteMember uid invitedBy
  | acceptJoin uid trustLevel => exact h.acceptJoin uid trustLevel
  | kickMember uid kickedBy => exact h.kickMember uid kickedBy
  | transferAdmin newAdmin currentAdmin => exact h.transferAdmin newAdmin currentAdmin
  | setTopic topic setter =>
    rw [DcNetwork.call, setTopic]
    split
    · exact h
    · exact ⟨h.joinOrder, h.nodup, h.admin, h.leader, h.pending⟩
  | setMinTrust level setter =>
    rw [DcNetwork.call, setMinTrust]
    split
    · exact h
    · exact ⟨h.joinOrder, h.nodup, h.admin, h.leader, h.pending⟩
  | rotateLeader => exact h.rotateLeader
  | setLeader uid => exact h.setLeader uid

theorem run (h : n.WellFormed) (calls : List NetworkCall) : (n.run calls).WellFormed := by
  induction calls generalizing n with
  | nil => exact h
  | cons c calls ih => exact ih (h.call c)

/-- There is a next leader, and a rotation makes it the leader. -/
theorem exists_next (h : n.WellFormed) :
    ∃ next, n.nextLeader = some next ∧
      n.rotateLeader = (some next, { n with currentLeader := next }) := by
  obtain ⟨i, hi⟩ : ∃ i, n.nextIdx = some i := by
    rw [nextIdx, ← Option.isSome_iff_exists, Option.isSome_map, List.isSome_finIdxOf?,
      List.contains_iff_mem, h.joinOrder]
    exact h.leader
  refine ⟨n.memberJoinOrder.get i, ?_, ?_⟩
  · rw [nextLeader, hi]
    exact List.getElem?_eq_getElem i.isLt
  · rw [DcNetwork.rotateLeader, hi]

end WellFormed

/-- In every run of a new network, whoever calls and whether or not a call is refused: both lists
hold every member once, the admin and the leader are members, no member is invited, there is always
a next leader, to whom a rotation passes the lead, and a refused call changes nothing. -/
theorem wellFormed_run (name adminUid : String) (now : ℕ) (calls : List NetworkCall) :
    let n := (new name adminUid now).run calls
    n.WellFormed ∧
      (∃ next, n.nextLeader = some next ∧
        n.rotateLeader = (some next, { n with currentLeader := next })) ∧
      ∀ c e, (n.call c).1 = .error e → (n.call c).2 = n := by
  have h := (wellFormed_new name adminUid now).run calls
  exact ⟨h, h.exists_next, fun _ _ => call_eq_of_error⟩

/-! ## Rotation -/

/-- The member at place `i` leads, counted around the order of joining. -/
def LeadsAt (n : DcNetwork) (i : ℕ) : Prop :=
  n.memberJoinOrder[i % n.memberJoinOrder.length]? = some n.currentLeader

/-- A rotation passes the lead to the next place. -/
theorem rotateLeader_of_leadsAt (h : n.WellFormed) {i : ℕ} (hi : n.LeadsAt i) :
    ∃ next, n.memberJoinOrder[(i + 1) % n.memberJoinOrder.length]? = some next ∧
      n.rotateLeader = (some next, { n with currentLeader := next }) := by
  obtain ⟨hlt, hget⟩ := List.getElem?_eq_some_iff.mp hi
  have hnodup : n.memberJoinOrder.Nodup := h.joinOrder ▸ h.nodup
  -- the leader is found at its only place
  have hfind : n.memberJoinOrder.finIdxOf? n.currentLeader =
      some ⟨i % n.memberJoinOrder.length, hlt⟩ := by
    rw [List.finIdxOf?_eq_some_iff]
    refine ⟨hget, fun j hj heq => ?_⟩
    have hsame : (j : ℕ) = i % n.memberJoinOrder.length :=
      hnodup.getElem_inj_iff.mp (heq.trans hget.symm)
    exact absurd hsame (Nat.ne_of_lt hj)
  have hpos : 0 < n.memberJoinOrder.length := by omega
  refine ⟨_, List.getElem?_eq_getElem (Nat.mod_lt _ hpos), ?_⟩
  rw [rotateLeader, nextIdx, hfind]
  simp only [Option.map_some, List.get_eq_getElem, Nat.mod_add_mod]

/-- Rotations return the members from the next place on. -/
theorem rotations_of_leadsAt (h : n.WellFormed) {i : ℕ} (hi : n.LeadsAt i) (k : ℕ) :
    ∃ last, n.memberJoinOrder[(i + k) % n.memberJoinOrder.length]? = some last ∧
      n.rotations k = ((List.range k).map
        (fun j => n.memberJoinOrder[(i + 1 + j) % n.memberJoinOrder.length]?),
          { n with currentLeader := last }) := by
  induction k generalizing n i with
  | zero => exact ⟨n.currentLeader, hi, rfl⟩
  | succ k ih =>
    obtain ⟨next, hnext, hrotate⟩ := rotateLeader_of_leadsAt h hi
    have hwf : WellFormed { n with currentLeader := next } := by
      have := h.rotateLeader
      rwa [hrotate] at this
    obtain ⟨last, hlast, hrest⟩ := @ih { n with currentLeader := next } hwf (i + 1) hnext
    refine ⟨last, ?_, ?_⟩
    · rw [← Nat.add_assoc, Nat.add_right_comm]
      exact hlast
    · rw [rotations, hrotate]
      dsimp only
      rw [hrest, List.range_succ_eq_map, List.map_cons, List.map_map, Nat.add_zero, hnext]
      refine congrArg (fun rest => (some next :: rest, _)) (List.map_congr_left fun j _ => ?_)
      have hplace : i + 1 + 1 + j = i + 1 + (j + 1) := by omega
      rw [Function.comp_apply, Nat.succ_eq_add_one, ← hplace]

/-- In every network that a run reaches, as many successive rotations as there are members return
every member exactly once, and the network is then as it was. -/
theorem rotation_fair (name adminUid : String) (now : ℕ) (calls : List NetworkCall) :
    let n := (new name adminUid now).run calls
    n.members.Nodup ∧ (n.rotations n.members.length).1.Perm (n.members.map some) ∧
      (n.rotations n.members.length).2 = n := by
  intro n
  have h : n.WellFormed := (wellFormed_new name adminUid now).run calls
  have hmem : n.currentLeader ∈ n.memberJoinOrder := h.joinOrder ▸ h.leader
  obtain ⟨i, hlt, hget⟩ := List.getElem_of_mem hmem
  have hi : n.LeadsAt i := by
    rw [LeadsAt, Nat.mod_eq_of_lt hlt]
    exact List.getElem?_eq_some_iff.mpr ⟨hlt, hget⟩
  obtain ⟨last, hlast, hrotations⟩ := rotations_of_leadsAt h hi n.memberJoinOrder.length
  -- once around, the lead is back where it was
  rw [Nat.add_mod_right, hi] at hlast
  cases hlast
  -- the places from `i + 1` on are all places
  have hplaces : (List.range n.memberJoinOrder.length).map
      (fun j => n.memberJoinOrder[(i + 1 + j) % n.memberJoinOrder.length]?) =
        (n.memberJoinOrder.rotate (i + 1)).map some := by
    refine List.ext_getElem (by simp) fun j _ hj => ?_
    rw [List.length_map, List.length_rotate] at hj
    rw [List.getElem_map, List.getElem_map, List.getElem_range, List.getElem_rotate,
      Nat.add_comm j, List.getElem?_eq_getElem]
  rw [← h.joinOrder, hrotations, hplaces]
  exact ⟨h.joinOrder ▸ h.nodup, (List.rotate_perm _ _).map some, rfl⟩

end DcNetwork

end ChronoShift
