import CodeSeeX.Core.Protocol
import CodeSeeX.General.HashMap
import CodeSeeX.Proxy.PendingGroups

/-!
# Canonical sessions

The proxy remembers the fingerprints of the last message list of each session and
reports how the next one continues it. Sessions expire, and the table is bounded.
-/
namespace CodeSeeX.Canonical

open Native (Instant requestAnchor)

def maxActiveSessions : ℕ := 64

def maxTrackedMessageFingerprints : ℕ := 16384

def sessionTtl : ℕ := 30 * 60 * 10 ^ 9

abbrev Fingerprint := Vector UInt8 32

structure CanonicalSession where
  messageFingerprints : List Fingerprint
  rootFingerprint : Fingerprint
  touchedAt : Instant

/-- SHA-256, the serializer of messages, and the order in which the table is iterated, which the
standard library leaves open. -/
structure Crates where
  sha256 : List UInt8 → Fingerprint
  toVec : ChatMessage → List UInt8
  iterate : HashMap Text CanonicalSession → List (Text × CanonicalSession)
  iterate_perm : ∀ sessions : HashMap Text CanonicalSession,
    (iterate sessions).Perm (sessions.entries.map fun entry => (entry.1, entry.2))

/-- Two hexadecimal digits for each byte. -/
def hex (bytes : List UInt8) : Text :=
  bytes.flatMap fun byte => [Nat.digitChar (byte.toNat / 16), Nat.digitChar (byte.toNat % 16)]

def count (n : ℕ) : Value := .number (.posInt (UInt64.ofNat n))

section Crates
variable (crates : Crates)

def fullHash (value : Text) : Text := hex (crates.sha256 (Text.bytes value)).toList

def shortHash (value : Text) : Text := hex ((crates.sha256 (Text.bytes value)).toList.take 8)

def sessionKey (request : Value) : Option Text := (requestAnchor request).map (fullHash crates)

def messageFingerprint (message : ChatMessage) : Fingerprint :=
  crates.sha256 (crates.toVec message)

def fingerprintsHash (fingerprints : List Fingerprint) : Fingerprint :=
  crates.sha256 (fingerprints.flatMap fun fingerprint => fingerprint.toList ++ [0])

def hasFingerprintPrefix (messages start : List Fingerprint) : Bool :=
  start.length ≤ messages.length ∧ messages.take start.length = start

/-- Sessions are removed, each time the first of those touched longest ago, until 64 are left. -/
def trimToCapacity (sessions : HashMap Text CanonicalSession) : HashMap Text CanonicalSession :=
  if sessions.len ≤ maxActiveSessions then sessions
  else
    match _h : (crates.iterate sessions).argmin (·.2.touchedAt) with
    | none => sessions
    | some oldest => trimToCapacity (sessions.erase oldest.1)
termination_by sessions.len
decreasing_by
  have hmem := (crates.iterate_perm sessions).subset (List.argmin_mem _h)
  obtain ⟨entry, hentry, heq⟩ := List.mem_map.mp hmem
  have hkey : oldest.1 ∈ sessions := by
    rw [← heq, AList.mem_keys]
    exact List.mem_map_of_mem hentry
  have hlength := HashMap.len_erase hkey
  omega

def isLive (now : Instant) (session : CanonicalSession) : Bool :=
  now - session.touchedAt ≤ sessionTtl

/-- The session that a call leaves under its key. -/
def freshSession (now : Instant) (fingerprints : List Fingerprint) : CanonicalSession where
  messageFingerprints := fingerprints
  rootFingerprint := fingerprintsHash crates (fingerprints.take 3)
  touchedAt := now

/-- How the incoming list continues the session's list. -/
def alignmentName (previous fingerprints : List Fingerprint) : Text :=
  if hasFingerprintPrefix fingerprints previous then "appended_authoritative_replay"
  else if hasFingerprintPrefix previous fingerprints then "authoritative_checkpoint_compacted"
  else "authoritative_checkpoint_rebuilt"

/-- What is reported about a tracked call, given the session that was found. -/
def trackedDiagnostic (found : Option CanonicalSession) (fingerprints : List Fingerprint) :
    List (Text × Value) :=
  match found with
  | none =>
      [("alignment", .string "rebuilt_no_active_session"),
        ("canonical_messages", count fingerprints.length),
        ("incoming_messages", count fingerprints.length),
        ("root_changed", .bool false),
        ("tracked", .bool true)]
  | some session =>
      [("alignment", .string (alignmentName session.messageFingerprints fingerprints)),
        ("canonical_messages", count fingerprints.length),
        ("incoming_messages", count fingerprints.length),
        ("previous_messages", count session.messageFingerprints.length),
        ("root_changed", .bool (decide
          (session.rootFingerprint ≠ fingerprintsHash crates (fingerprints.take 3)))),
        ("tracked", .bool true)]

/-- The diagnostic of a call and the table that it leaves. -/
def reconcile (sessions : HashMap Text CanonicalSession) (now : Instant) (request : Value)
    (incoming : List ChatMessage) : Value × HashMap Text CanonicalSession :=
  match sessionKey crates request with
  | none =>
      (.object [("alignment", .string "untracked_missing_session_anchor"),
        ("incoming_messages", count incoming.length), ("tracked", .bool false)], sessions)
  | some key =>
      if incoming.length > maxTrackedMessageFingerprints then
        (.object [("alignment", .string "untracked_replay_too_many_items"),
          ("incoming_messages", count incoming.length),
          ("max_tracked_messages", count maxTrackedMessageFingerprints),
          ("session_hash", .string (shortHash crates key)), ("tracked", .bool false)], sessions)
      else
        let live := sessions.retain fun _ session => isLive now session
        let fingerprints := incoming.map (messageFingerprint crates)
        let outcome := trackedDiagnostic crates (live.lookup key) fingerprints
        let touched := live.insert key (freshSession crates now fingerprints)
        (.object (Value.insertField "session_hash" (.string (shortHash crates key)) outcome),
          trimToCapacity crates touched)

end Crates

end CodeSeeX.Canonical
