import ChronoShift.Identity
import ChronoShift.Text
import ChronoShift.ToMathlib.Lines

/-!
# Discovery on the local network

A node announces its uid and its port in a datagram, and collects the announcements of others
(`net/lan.rs`). The fields of an announcement are separated by colons, and a uid may contain colons,
too: an anonymous uid with a socket address does.

* `split_announcement`: the fields that an announcement is split into;
* `parseAnnounce_announcement_iff`: the announcements that are read back;
* `mem_discoverPeers`: the nodes that are discovered.
-/

namespace ChronoShift

open ToMathlib

/-- A node that is discovered; `addr` is "ip:port". -/
structure LanPeer where
  uid : String
  port : ℕ
  addr : String
  deriving DecidableEq

/-- The text that `discover_peers` sends. -/
def announcement (uid : String) (port : ℕ) : String := s!"CHRONO:{uid}:{port}"

def parseAnnounce (data : String) : Option LanPeer :=
  match split ':' (trim data) with
  | [tag, uid, port] =>
    if tag = "CHRONO" then
      (parseUnsigned (2 ^ 16) port).map fun port =>
        { uid := uid, port := port, addr := s!"0.0.0.0:{port}" }
    else none
  | _ => none

/-- What `discover_peers` makes of a datagram from the address `ip`, in a buffer of 256 bytes; the
announcements of the node itself are skipped. -/
def discovered (uid : String) (datagram : Bytes) (ip : String) : Option LanPeer :=
  (parseAnnounce (fromUtf8Lossy (datagram.take 256))).bind fun peer =>
    if peer.uid ≠ uid then
      some { uid := peer.uid, port := peer.port, addr := s!"{ip}:{peer.port}" }
    else none

/-- The datagrams that arrive before the deadline, each with the address it comes from. -/
def discoverPeers (uid : String) (datagrams : List (Bytes × String)) : List LanPeer :=
  datagrams.filterMap fun d => discovered uid d.1 d.2

variable {uid : String} {port : ℕ}

/-- The characters of an announcement. -/
theorem toList_announcement : (announcement uid port).toList =
    "CHRONO".toList ++ ':' :: (uid.toList ++ ':' :: (toString port).toList) := by
  have hparts : announcement uid port = "CHRONO:" ++ uid ++ ":" ++ toString port := rfl
  rw [hparts]
  simp

/-- No digit is a colon. -/
theorem colon_notMem_toString (port : ℕ) : ':' ∉ (toString port).toList := by
  intro hmem
  have hdigit : ':'.isDigit = true :=
    Nat.isDigit_of_mem_toDigits (by decide) le_rfl (Nat.toList_repr ▸ hmem)
  cases hdigit

/-- An announcement neither begins nor ends in white space. -/
theorem trim_announcement : trim (announcement uid port) = announcement uid port := by
  refine trim_eq_self ?_ ?_ <;> rw [toList_announcement]
  · intro c hc
    obtain rfl : 'C' = c := by simpa using hc
    decide
  · -- the last character is a digit of the port
    have hlast := List.getLast?_eq_some_getLast (Nat.toDigits_ne_nil (n := port) (b := 10))
    intro c hc
    obtain rfl : (Nat.toDigits 10 port).getLast Nat.toDigits_ne_nil = c := by
      simpa [List.getLast?_append, List.getLast?_cons, hlast] using hc
    exact isWhitespace_of_isDigit
      (Nat.isDigit_of_mem_toDigits (by decide) le_rfl (List.getLast_mem Nat.toDigits_ne_nil))

/-- The fields of an announcement: a uid with colons takes up several. -/
theorem split_announcement : split ':' (announcement uid port) =
    "CHRONO" :: (split ':' uid ++ [toString port]) := by
  have htag : ':' ∉ "CHRONO".toList := by decide
  rw [split, toList_announcement, List.splitOn_append_cons_self_of_not_mem htag,
    List.splitOn_append_cons_self, List.splitOn_eq_singleton (colon_notMem_toString port)]
  rw [List.map_cons, List.map_append, List.map_singleton, String.ofList_toList,
    String.ofList_toList, split]

/-- An announcement is read back if its uid has no colon. -/
theorem parseAnnounce_announcement (hcolon : ':' ∉ uid.toList) (hport : port < 2 ^ 16) :
    parseAnnounce (announcement uid port) =
      some { uid := uid, port := port, addr := s!"0.0.0.0:{port}" } := by
  have huid : split ':' uid = [uid] := by
    rw [split, List.splitOn_eq_singleton hcolon, List.map_singleton, String.ofList_toList]
  rw [parseAnnounce, trim_announcement, split_announcement, huid]
  show Option.map _ (parseUnsigned (2 ^ 16) (toString port)) = _
  rw [parseUnsigned_toString hport, Option.map_some]

/-- With a colon in the uid there are more than three fields. -/
theorem parseAnnounce_eq_none (hcolon : ':' ∈ uid.toList) :
    parseAnnounce (announcement uid port) = none := by
  have hfields : 2 ≤ (split ':' uid).length := by
    rw [split, List.length_map, length_splitOn]
    exact Nat.succ_le_succ (List.count_pos_iff.mpr hcolon)
  rw [parseAnnounce, trim_announcement, split_announcement]
  match split ':' uid, hfields with
  | [_, _], _ => rfl
  | _ :: _ :: _ :: _, _ => rfl

/-- An announcement is read back if and only if there is no colon in the uid. -/
theorem parseAnnounce_announcement_iff (hport : port < 2 ^ 16) :
    (∃ peer, parseAnnounce (announcement uid port) = some peer ∧ peer.uid = uid ∧
      peer.port = port) ↔ ':' ∉ uid.toList := by
  constructor
  · rintro ⟨peer, hpeer, -, -⟩ hcolon
    rw [parseAnnounce_eq_none hcolon] at hpeer
    cases hpeer
  · intro hcolon
    exact ⟨_, parseAnnounce_announcement hcolon hport, rfl, rfl⟩

/-- The announcement of alice. -/
theorem parseAnnounce_announcement_alice :
    (∃ peer, parseAnnounce (announcement "alice" 9000) = some peer ∧ peer.uid = "alice" ∧
      peer.port = 9000) ↔ ':' ∉ "alice".toList :=
  parseAnnounce_announcement_iff (by decide)

/-- The anonymous uid of a socket address is valid, and its announcement is not read. -/
theorem announcement_not_read :
    ¬ ∀ uid port, validateUid uid = true → port < 2 ^ 16 →
      ∃ peer, parseAnnounce (announcement uid port) = some peer ∧ peer.uid = uid ∧
        peer.port = port := by
  intro hclaim
  obtain ⟨peer, hpeer, -, -⟩ := hclaim "peer@127.0.0.1:9000" 9000 (by decide) (by decide)
  rw [parseAnnounce_eq_none (by decide)] at hpeer
  cases hpeer

/-- An announcement fits the buffer of the receiver. -/
theorem length_announcement_le (huid : validateUid uid = true) (hport : port < 2 ^ 16) :
    (asBytes (announcement uid port)).length ≤ 256 := by
  have hparts : announcement uid port = "CHRONO:" ++ uid ++ ":" ++ toString port := rfl
  have htag : (asBytes "CHRONO:").length = 7 := by decide
  have hsep : (asBytes ":").length = 1 := by decide
  have hlen : (asBytes uid).length ≤ 64 := by
    simp only [validateUid, Bool.and_eq_true, decide_eq_true_eq] at huid
    exact huid.1.2
  have hdigits : (asBytes (toString port)).length ≤ 5 := by
    have hascii : ∀ c ∈ Nat.toDigits 10 port, c.toNat < 128 := by
      intro c hc
      have hrange := toNat_of_isDigit (Nat.isDigit_of_mem_toDigits (by decide) le_rfl hc)
      omega
    rw [Nat.toString_eq_ofList_toDigits, asBytes_ofList_ascii hascii, List.length_map]
    exact (Nat.length_toDigits_le_iff (by decide) (by decide)).mpr (by omega)
  rw [hparts, asBytes_append, asBytes_append, asBytes_append]
  simp only [List.length_append]
  omega

/-- A node whose valid uid has no colon is discovered by the others that receive its
announcement. -/
theorem mem_discoverPeers {own ip : String} {datagrams : List (Bytes × String)}
    (huid : validateUid uid = true) (hne : uid ≠ own) (hcolon : ':' ∉ uid.toList)
    (hport : port < 2 ^ 16) (hmem : (asBytes (announcement uid port), ip) ∈ datagrams) :
    { uid := uid, port := port, addr := s!"{ip}:{port}" } ∈ discoverPeers own datagrams := by
  refine List.mem_filterMap.mpr ⟨_, hmem, ?_⟩
  rw [discovered, List.take_of_length_le (length_announcement_le huid hport),
    fromUtf8Lossy_asBytes, parseAnnounce_announcement hcolon hport]
  exact if_pos hne

end ChronoShift
