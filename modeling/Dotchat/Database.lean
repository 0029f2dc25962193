import Dotchat.Values
import Dotchat.Library.Program
import Dotchat.Library.Table
import Mathlib.Data.List.Sort

/-!
The database of database.hpp, with the operations that the handlers perform on
it, and the clocks and random bytes they read. Tables hold their rows in
insertion order; in which order SQLite goes through a table that it reads by an
index is not modelled. An insertion draws a row id above those in use and fails
with `std::system_error` when a primary key or a UNIQUE column is violated; no
other operation fails. Foreign keys are not enforced. The ids of users and
channels are taken as wide as the `int` they are read into, which is what they
are as long as there are `IdsLeft`; message ids are never read and have no bound.
-/
namespace Dotchat

namespace Db

structure User where
  id : Int32
  name : Bytes
  pass : Bytes
  deriving DecidableEq

structure SessionKey where
  key : Int32
  user : Int32
  validUntil : Int64
  deriving DecidableEq

structure Channel where
  id : Int32
  name : Bytes
  ownerId : Int32
  desc : Option Bytes
  deriving DecidableEq

structure ChannelMember where
  user : Int32
  channel : Int32
  deriving DecidableEq

structure StoredMessage where
  id : ℕ
  sender : Int32
  channel : Int32
  content : Bytes
  sentWhen : UInt32
  repliesTo : Option ℕ := none
  deriving DecidableEq

/-- The primary key of `channel_member`. -/
def ChannelMember.key (m : ChannelMember) : Int32 × Int32 := (m.user, m.channel)

end Db

open Db

structure Database where
  users : List User := []
  sessionKeys : List SessionKey := []
  channels : List Channel := []
  channelMembers : List ChannelMember := []
  messages : List StoredMessage := []
  deriving DecidableEq

/-- The `when` of a row as it is stored: sqlite_orm binds a `uint32_t` as an `int`. -/
def Db.StoredMessage.stored (m : StoredMessage) : Int := m.sentWhen.toInt32.toInt

/-- The row id that an insertion draws: one above the largest in use. -/
def newRowId (ids : List Int32) : Int32 :=
  Int32.ofInt (ids.foldl (fun top id => max top id.toInt) 0 + 1)

/-- The largest `int` is not in use as a row id. SQLite draws ids of 64 bits and goes on
above it, where the ids that the source reads are no longer those of the rows. -/
def IdsLeft (ids : List Int32) : Prop := ∀ id ∈ ids, id.toInt < 2 ^ 31 - 1

theorem foldl_max_bounds {ids : List Int32} (h : IdsLeft ids) {top : Int}
    (htop : top < 2 ^ 31 - 1) :
    let largest := ids.foldl (fun top id => max top id.toInt) top
    top ≤ largest ∧ largest < 2 ^ 31 - 1 ∧ ∀ id ∈ ids, id.toInt ≤ largest := by
  induction ids generalizing top with
  | nil => exact ⟨Int.le_refl _, htop, by simp⟩
  | cons id rest ih =>
    obtain ⟨hid, hrest⟩ := List.forall_mem_cons.mp h
    obtain ⟨hle, hlt, hall⟩ := ih hrest (max_lt htop hid)
    refine ⟨(le_max_left _ _).trans hle, hlt, List.forall_mem_cons.mpr ⟨?_, hall⟩⟩
    exact (le_max_right _ _).trans hle

theorem newRowId_notMem {ids : List Int32} (h : IdsLeft ids) : newRowId ids ∉ ids := by
  obtain ⟨hpos, hlt, hall⟩ := foldl_max_bounds h (by decide : (0 : Int) < 2 ^ 31 - 1)
  intro hmem
  have hle := hall _ hmem
  have hsize : Int32.size = 2 ^ 32 := rfl
  have hnew : (newRowId ids).toInt = ids.foldl (fun top id => max top id.toInt) 0 + 1 := by
    rw [newRowId, Int32.toInt_ofInt]
    exact Int.bmod_eq_of_le (by omega) (by omega)
  omega

namespace Database

section Queries

variable (db : Database)

def getUser (id : Int32) : Option User := Table.lookup (·.id) id db.users

def getSessionKey (key : Int32) : Option SessionKey := Table.lookup (·.key) key db.sessionKeys

def getChannel (id : Int32) : Option Channel := Table.lookup (·.id) id db.channels

def getChannelMember (user channel : Int32) : Option ChannelMember :=
  Table.lookup (·.key) (user, channel) db.channelMembers

def usersNamed (name : Bytes) : List User := db.users.filter (·.name = name)

/-- SELECT user FROM channel_member WHERE channel = X -/
def membersOf (channel : Int32) : List Int32 :=
  (db.channelMembers.filter (·.channel = channel)).map (·.user)

def membershipsOf (channel user : Int32) : List ChannelMember :=
  db.channelMembers.filter fun m => m.channel = channel ∧ m.user = user

/-- The messages of a channel by `when`, in insertion order where it is equal. -/
def messagesOf (channel : Int32) : List StoredMessage :=
  (db.messages.filter (·.channel = channel)).insertionSort fun m m' => m.stored ≤ m'.stored

/-- SELECT id, name FROM channel JOIN channel_member ON channel_member.channel = id
WHERE channel_member.user = X -/
def channelsOf (user : Int32) : List (Int32 × Bytes) :=
  db.channels.flatMap fun c =>
    (db.channelMembers.filter fun m => m.channel = c.id ∧ m.user = user).map fun _ => (c.id, c.name)

/-- SELECT channel FROM channel_member WHERE user = X AND channel IN
(SELECT channel FROM channel_member WHERE user = Y). The rows are those of SQLite,
their order is not: it answers from the index of the primary key. -/
def mutualChannels (uid userId : Int32) : List Int32 :=
  let inner := (db.channelMembers.filter (·.user = userId)).map (·.channel)
  (db.channelMembers.filter fun m => m.user = uid ∧ m.channel ∈ inner).map (·.channel)

theorem getChannelMember_isSome {user channel : Int32} :
    (db.getChannelMember user channel).isSome ↔ { user, channel } ∈ db.channelMembers := by
  rw [getChannelMember, Table.lookup_isSome]
  constructor
  · rintro ⟨m, hm, hkey⟩
    cases hkey
    exact hm
  · exact fun h => ⟨_, h, rfl⟩

theorem membershipsOf_eq_nil {user channel : Int32} :
    db.membershipsOf channel user = [] ↔ ∀ m ∈ db.channelMembers, m.key ≠ (user, channel) := by
  simp only [membershipsOf, List.filter_eq_nil_iff, decide_eq_true_eq, ChannelMember.key, ne_eq,
    Prod.mk.injEq]
  exact forall₂_congr fun m _ => not_congr and_comm

theorem mem_channelsOf {user : Int32} {e : Int32 × Bytes} (h : e ∈ db.channelsOf user) :
    ∃ c ∈ db.channels, e = (c.id, c.name) := by
  obtain ⟨c, hc, he⟩ := List.mem_flatMap.mp h
  obtain ⟨m, -, rfl⟩ := List.mem_map.mp he
  exact ⟨c, hc, rfl⟩

theorem mem_messagesOf {channel : Int32} {m : StoredMessage} (h : m ∈ db.messagesOf channel) :
    m ∈ db.messages ∧ m.channel = channel := by
  simpa using List.mem_filter.mp ((List.mem_insertionSort _).mp h)

end Queries

section Updates

variable (db : Database)

def nextUserId : Int32 := newRowId (db.users.map (·.id))

def nextChannelId : Int32 := newRowId (db.channels.map (·.id))

/-- A new user of this name would violate the primary key or the UNIQUE name. -/
def UserConflict (name : Bytes) : Prop := ∃ u ∈ db.users, u.id = db.nextUserId ∨ u.name = name

instance (name : Bytes) : Decidable (db.UserConflict name) :=
  inferInstanceAs (Decidable (∃ _ ∈ _, _))

theorem userConflict_iff {name : Bytes} (h : IdsLeft (db.users.map (·.id))) :
    db.UserConflict name ↔ ∃ u ∈ db.users, u.name = name := by
  have hfresh : ∀ u ∈ db.users, u.id ≠ db.nextUserId := fun u hu hid =>
    newRowId_notMem h (List.mem_map.mpr ⟨u, hu, hid⟩)
  exact exists_congr fun u => and_congr_right fun hu => or_iff_right (hfresh u hu)

/-- A new channel of this name would violate the primary key or the UNIQUE name. -/
def ChannelConflict (name : Bytes) : Prop :=
  ∃ c ∈ db.channels, c.id = db.nextChannelId ∨ c.name = name

instance (name : Bytes) : Decidable (db.ChannelConflict name) :=
  inferInstanceAs (Decidable (∃ _ ∈ _, _))

theorem channelConflict_iff {name : Bytes} (h : IdsLeft (db.channels.map (·.id))) :
    db.ChannelConflict name ↔ ∃ c ∈ db.channels, c.name = name := by
  have hfresh : ∀ c ∈ db.channels, c.id ≠ db.nextChannelId := fun c hc hid =>
    newRowId_notMem h (List.mem_map.mpr ⟨c, hc, hid⟩)
  exact exists_congr fun c => and_congr_right fun hc => or_iff_right (hfresh c hc)

def insertUser (name pass : Bytes) : Except Exc Database :=
  if db.UserConflict name then .error .systemError
  else .ok { db with users := db.users ++ [{ id := db.nextUserId, name, pass }] }

/-- Insert a channel; its id is returned. -/
def insertChannel (name : Bytes) (ownerId : Int32) (desc : Option Bytes) :
    Except Exc (Int32 × Database) :=
  if db.ChannelConflict name then .error .systemError
  else .ok (db.nextChannelId, { db with
    channels := db.channels ++ [{ id := db.nextChannelId, name, ownerId, desc }] })

def insertMessage (sender channel : Int32) (content : Bytes) (sentWhen : UInt32) : Database :=
  let id := (db.messages.map (·.id)).foldl max 0 + 1
  { db with messages := db.messages ++
      [{ id, sender, channel, content, sentWhen }] }

def replaceSessionKey (row : SessionKey) : Database :=
  { db with sessionKeys := Table.replace (·.key) row db.sessionKeys }

def replaceChannelMember (row : ChannelMember) : Database :=
  { db with channelMembers := Table.replace (·.key) row db.channelMembers }

/-- UPDATE user; the name has to stay UNIQUE. -/
def updateUser (row : User) : Except Exc Database :=
  if ∃ u ∈ db.users, u.id ≠ row.id ∧ u.name = row.name then .error .systemError
  else .ok { db with users := Table.update (·.id) row db.users }

def removeSessionKeysOf (user : Int32) : Database :=
  { db with sessionKeys := db.sessionKeys.filter (·.user ≠ user) }

end Updates

section Specs

variable {db db' : Database}

theorem insertUser_eq_ok {name pass : Bytes} (h : db.insertUser name pass = .ok db') :
    ¬ db.UserConflict name ∧
      db' = { db with users := db.users ++ [{ id := db.nextUserId, name, pass }] } := by
  unfold insertUser at h
  split at h
  · cases h
  · rename_i hfree
    cases h
    exact ⟨hfree, rfl⟩

theorem insertUser_eq_error {name pass : Bytes} {e : Exc} (h : db.insertUser name pass = .error e) :
    db.UserConflict name ∧ e = .systemError := by
  unfold insertUser at h
  split at h
  · rename_i htaken
    cases h
    exact ⟨htaken, rfl⟩
  · cases h

theorem insertChannel_eq_ok {name : Bytes} {ownerId id : Int32} {desc : Option Bytes}
    (h : db.insertChannel name ownerId desc = .ok (id, db')) :
    ¬ db.ChannelConflict name ∧ id = db.nextChannelId ∧ db' = { db with
      channels := db.channels ++ [{ id := db.nextChannelId, name, ownerId, desc }] } := by
  unfold insertChannel at h
  split at h
  · cases h
  · rename_i hfree
    cases h
    exact ⟨hfree, rfl, rfl⟩

theorem insertChannel_eq_error {name : Bytes} {ownerId : Int32} {desc : Option Bytes} {e : Exc}
    (h : db.insertChannel name ownerId desc = .error e) :
    db.ChannelConflict name ∧ e = .systemError := by
  unfold insertChannel at h
  split at h
  · rename_i htaken
    cases h
    exact ⟨htaken, rfl⟩
  · cases h

theorem updateUser_eq_ok {row : User} (h : db.updateUser row = .ok db') :
    db' = { db with users := Table.update (·.id) row db.users } := by
  unfold updateUser at h
  split at h
  · cases h
  · cases h
    rfl

theorem updateUser_eq_error {row : User} {e : Exc} (h : db.updateUser row = .error e) :
    (∃ u ∈ db.users, u.id ≠ row.id ∧ u.name = row.name) ∧ e = .systemError := by
  unfold updateUser at h
  split at h
  · rename_i htaken
    cases h
    exact ⟨htaken, rfl⟩
  · cases h

theorem getSessionKey_replaceSessionKey (db : Database) (row : SessionKey) :
    (db.replaceSessionKey row).getSessionKey row.key = some row :=
  Table.lookup_replace_self

end Specs

/-- The database that `database()` creates when there is none. -/
def initial : Database where
  users := [{ id := 1, name := ascii "master", pass := ascii "pass" }]
  channels := [{
    id := 1
    name := ascii "general"
    ownerId := 1
    desc := some (ascii "general main room") }]
  channelMembers := [{ user := 1, channel := 1 }]

end Database

/-- What the two clocks show at one moment, in nanoseconds. The steady clock
counts from the start of the machine. -/
structure Instant where
  steady : ℕ
  system : Int64
  steady_lt : steady < 2 ^ 63
  deriving DecidableEq

namespace Instant

/-- `now()`: milliseconds of the system clock, cut to 32 bits -/
def now (t : Instant) : UInt32 := (t.system / 1000000).toUInt64.toUInt32

/-- `now_uncut()`: nanoseconds of the steady clock -/
def nowUncut (t : Instant) : Int64 := Int64.ofNat t.steady

end Instant

/-- What the handlers read from outside: the clocks at each reading, and what
`RAND_bytes` fills in at each draw. -/
structure Env where
  clock : ℕ → Instant
  rand : ℕ → Int32

/-- The database, and how many readings and draws were made. -/
structure World where
  db : Database := .initial
  readings : ℕ := 0
  draws : ℕ := 0
  deriving DecidableEq

/-- The operations of the handlers. -/
inductive Call
  | getSessionKey (key : Int32)
  | getUser (id : Int32)
  | getChannel (id : Int32)
  | getChannelMember (user channel : Int32)
  | usersNamed (name : Bytes)
  | membersOf (channel : Int32)
  | membershipsOf (channel user : Int32)
  | messagesOf (channel : Int32)
  | channelsOf (user : Int32)
  | mutualChannels (uid userId : Int32)
  | insertUser (name pass : Bytes)
  | insertChannel (name : Bytes) (ownerId : Int32) (desc : Option Bytes)
  | insertMessage (sender channel : Int32) (content : Bytes) (sentWhen : UInt32)
  | replaceSessionKey (row : SessionKey)
  | replaceChannelMember (row : ChannelMember)
  | updateUser (row : User)
  | removeSessionKeysOf (user : Int32)
  | now
  | nowUncut
  | genKey

/-- The type of the answer to an operation; what no handler uses is left out. -/
@[reducible] def Call.Answer : Call → Type
  | getSessionKey _ => Option SessionKey
  | getUser _ => Option User
  | getChannel _ => Option Channel
  | getChannelMember _ _ => Option ChannelMember
  | usersNamed _ => List User
  | membersOf _ => List Int32
  | membershipsOf _ _ => List ChannelMember
  | messagesOf _ => List StoredMessage
  | channelsOf _ => List (Int32 × Bytes)
  | mutualChannels _ _ => List Int32
  | insertChannel _ _ _ => Int32
  | insertUser _ _ | insertMessage _ _ _ _ | replaceSessionKey _ | replaceChannelMember _
  | updateUser _ | removeSessionKeysOf _ => Unit
  | now => UInt32
  | nowUncut => Int64
  | genKey => Int32

/-- What an operation answers and does. -/
def perform (env : Env) : Program.Store Call Call.Answer Exc World
  | .getSessionKey key, w => (.ok (w.db.getSessionKey key), w)
  | .getUser id, w => (.ok (w.db.getUser id), w)
  | .getChannel id, w => (.ok (w.db.getChannel id), w)
  | .getChannelMember user channel, w => (.ok (w.db.getChannelMember user channel), w)
  | .usersNamed name, w => (.ok (w.db.usersNamed name), w)
  | .membersOf channel, w => (.ok (w.db.membersOf channel), w)
  | .membershipsOf channel user, w => (.ok (w.db.membershipsOf channel user), w)
  | .messagesOf channel, w => (.ok (w.db.messagesOf channel), w)
  | .channelsOf user, w => (.ok (w.db.channelsOf user), w)
  | .mutualChannels uid userId, w => (.ok (w.db.mutualChannels uid userId), w)
  | .insertUser name pass, w =>
      match w.db.insertUser name pass with
      | .ok db => (.ok (), { w with db := db })
      | .error e => (.error e, w)
  | .insertChannel name ownerId desc, w =>
      match w.db.insertChannel name ownerId desc with
      | .ok (id, db) => (.ok id, { w with db := db })
      | .error e => (.error e, w)
  | .insertMessage sender channel content sentWhen, w =>
      (.ok (), { w with db := w.db.insertMessage sender channel content sentWhen })
  | .replaceSessionKey row, w => (.ok (), { w with db := w.db.replaceSessionKey row })
  | .replaceChannelMember row, w => (.ok (), { w with db := w.db.replaceChannelMember row })
  | .updateUser row, w =>
      match w.db.updateUser row with
      | .ok db => (.ok (), { w with db := db })
      | .error e => (.error e, w)
  | .removeSessionKeysOf user, w => (.ok (), { w with db := w.db.removeSessionKeysOf user })
  | .now, w => (.ok (env.clock w.readings).now, { w with readings := w.readings + 1 })
  | .nowUncut, w => (.ok (env.clock w.readings).nowUncut, { w with readings := w.readings + 1 })
  | .genKey, w => (.ok (env.rand w.draws), { w with draws := w.draws + 1 })

section Perform

variable (env : Env) (w : World)

/-- An operation answers, or it throws and changes nothing. -/
theorem perform_cases (c : Call) :
    (∃ a, (perform env c w).1 = .ok a) ∨ perform env c w = (.error .systemError, w) := by
  cases c with
  | insertUser name pass =>
    simp only [perform]
    cases hins : w.db.insertUser name pass with
    | ok db => exact .inl ⟨_, rfl⟩
    | error e =>
      obtain rfl := (Database.insertUser_eq_error hins).2
      exact .inr rfl
  | insertChannel name ownerId desc =>
    simp only [perform]
    cases hins : w.db.insertChannel name ownerId desc with
    | ok inserted => exact .inl ⟨_, rfl⟩
    | error e =>
      obtain rfl := (Database.insertChannel_eq_error hins).2
      exact .inr rfl
  | updateUser row =>
    simp only [perform]
    cases hupd : w.db.updateUser row with
    | ok db => exact .inl ⟨_, rfl⟩
    | error e =>
      obtain rfl := (Database.updateUser_eq_error hupd).2
      exact .inr rfl
  | _ => exact .inl ⟨_, rfl⟩

/-- The insertion of a user touches no other table. -/
theorem perform_insertUser (name pass : Bytes) : ∃ users,
    (perform env (.insertUser name pass) w).2 = { w with db := { w.db with users } } := by
  simp only [perform]
  cases hins : w.db.insertUser name pass with
  | error e => exact ⟨w.db.users, rfl⟩
  | ok db =>
    obtain ⟨-, rfl⟩ := Database.insertUser_eq_ok hins
    exact ⟨_, rfl⟩

/-- Nor does the change of a user. -/
theorem perform_updateUser (row : User) : ∃ users,
    (perform env (.updateUser row) w).2 = { w with db := { w.db with users } } := by
  simp only [perform]
  cases hupd : w.db.updateUser row with
  | error e => exact ⟨w.db.users, rfl⟩
  | ok db =>
    obtain rfl := Database.updateUser_eq_ok hupd
    exact ⟨_, rfl⟩

/-- The insertion of a channel touches no other table. -/
theorem perform_insertChannel (name : Bytes) (ownerId : Int32) (desc : Option Bytes) : ∃ channels,
    (perform env (.insertChannel name ownerId desc) w).2 =
      { w with db := { w.db with channels } } := by
  simp only [perform]
  cases hins : w.db.insertChannel name ownerId desc with
  | error e => exact ⟨w.db.channels, rfl⟩
  | ok inserted =>
    obtain ⟨id, db⟩ := inserted
    obtain ⟨-, -, rfl⟩ := Database.insertChannel_eq_ok hins
    exact ⟨_, rfl⟩

end Perform
end Dotchat
