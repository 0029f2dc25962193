import Dotchat.Library.Threads
import Dotchat.Invariants

/-!
Requests on several connection threads. Each request is a program of database
operations, and the operations of all requests happen one after the other in any
order. Users, channels and memberships are never taken away, so what a handler
has seen of them still holds when it writes; this carries the relations between
the tables through every interleaving. A channel is without a member only while
the handler that creates it is between its two writes.
-/
namespace Dotchat

open Db Handlers Program Threads

/-- A request on some thread: the bound for the loop of login, and the message. -/
structure Job where
  turns : ℕ
  msg : Message

def Job.program (j : Job) : Handler Message := dispatch j.turns j.msg

abbrev Trace := List (Event Call Call.Answer Exc)

abbrev ServerThread := Thread Job Call Call.Answer Exc Message

abbrev ServerPool := Pool Job Call Call.Answer Exc Message World

/-- The pools that the server reaches from the new database. -/
abbrev ReachedPool (env : Env) (pool : ServerPool) : Prop :=
  Reached (perform env) Job.program {} pool

/-- Some user has the id. -/
def Database.HasUser (db : Database) (id : Int32) : Prop := ∃ u ∈ db.users, u.id = id

/-- Some channel has the id. -/
def Database.HasChannel (db : Database) (id : Int32) : Prop := ∃ c ∈ db.channels, c.id = id

/-- The relations between the tables, whatever the handlers are doing. -/
structure Relational (db : Database) : Prop where
  userIds : Table.Keyed (·.id) db.users
  userNames : Table.Keyed (·.name) db.users
  channelIds : Table.Keyed (·.id) db.channels
  channelNames : Table.Keyed (·.name) db.channels
  memberKeys : Table.Keyed (·.key) db.channelMembers
  sessionUser : ∀ s ∈ db.sessionKeys, db.HasUser s.user
  channelOwner : ∀ c ∈ db.channels, db.HasUser c.ownerId
  memberUser : ∀ m ∈ db.channelMembers, db.HasUser m.user
  memberChannel : ∀ m ∈ db.channelMembers, db.HasChannel m.channel
  messageChannel : ∀ m ∈ db.messages, db.HasChannel m.channel
  messageSender : ∀ m ∈ db.messages, { user := m.sender, channel := m.channel } ∈ db.channelMembers

/-- What is never taken away or renamed. -/
structure Database.Grows (db db' : Database) : Prop where
  users : ∀ u ∈ db.users, ∃ u' ∈ db'.users, u'.id = u.id ∧ u'.name = u.name
  channels : ∀ c ∈ db.channels, c ∈ db'.channels
  members : ∀ m ∈ db.channelMembers, m ∈ db'.channelMembers

namespace Database.Grows

variable {db db' db'' : Database}

theorem refl (db : Database) : db.Grows db where
  users u hu := ⟨u, hu, rfl, rfl⟩
  channels _ hc := hc
  members _ hm := hm

theorem trans (h : db.Grows db') (h' : db'.Grows db'') : db.Grows db'' where
  users u hu := by
    obtain ⟨v, hv, hid, hname⟩ := h.users u hu
    obtain ⟨x, hx, hid', hname'⟩ := h'.users v hv
    exact ⟨x, hx, hid'.trans hid, hname'.trans hname⟩
  channels c hc := h'.channels c (h.channels c hc)
  members m hm := h'.members m (h.members m hm)

theorem hasUser {id : Int32} (h : db.Grows db') (hu : db.HasUser id) : db'.HasUser id := by
  obtain ⟨u, hu, rfl⟩ := hu
  obtain ⟨v, hv, hid, -⟩ := h.users u hu
  exact ⟨v, hv, hid⟩

theorem hasChannel {id : Int32} (h : db.Grows db') (hc : db.HasChannel id) :
    db'.HasChannel id := by
  obtain ⟨c, hc, rfl⟩ := hc
  exact ⟨c, h.channels c hc, rfl⟩

end Database.Grows

/-- What the handlers know of the database when they make the call. -/
def Call.Proper (db : Database) : Call → Prop
  | .insertChannel _ ownerId _ => db.HasUser ownerId
  | .insertMessage sender channel _ _ => { user := sender, channel } ∈ db.channelMembers
  | .replaceSessionKey row => db.HasUser row.user
  | .replaceChannelMember row => db.HasUser row.user ∧ db.HasChannel row.channel
  | .updateUser row => ∃ u ∈ db.users, u.id = row.id ∧ u.name = row.name
  | _ => True

theorem relational_initial : Relational .initial where
  userIds := by simp [Table.Keyed, Database.initial]
  userNames := by simp [Table.Keyed, Database.initial]
  channelIds := by simp [Table.Keyed, Database.initial]
  channelNames := by simp [Table.Keyed, Database.initial]
  memberKeys := by simp [Table.Keyed, Database.initial]
  sessionUser := by simp [Database.initial]
  channelOwner := by simp [Database.initial, Database.HasUser]
  memberUser := by simp [Database.initial, Database.HasUser]
  memberChannel := by simp [Database.initial, Database.HasChannel]
  messageChannel := by simp [Database.initial]
  messageSender := by simp [Database.initial]

section Writes

variable {db db' : Database}

theorem insertUser_keeps {name pass : Bytes} (h : Relational db)
    (hins : db.insertUser name pass = .ok db') : Relational db' ∧ db.Grows db' := by
  obtain ⟨hfree, rfl⟩ := Database.insertUser_eq_ok hins
  have hgrows : db.Grows { db with
      users := db.users ++ [{ id := db.nextUserId, name, pass }] } := by
    refine { Database.Grows.refl db with users := ?_ }
    intro u hu
    exact ⟨u, List.mem_append_left _ hu, rfl, rfl⟩
  refine ⟨{ h with
    userIds := Table.keyed_append h.userIds fun u hu hid => hfree ⟨u, hu, .inl hid⟩
    userNames := Table.keyed_append h.userNames fun u hu hname => hfree ⟨u, hu, .inr hname⟩
    sessionUser := fun s hs => hgrows.hasUser (h.sessionUser s hs)
    channelOwner := fun c hc => hgrows.hasUser (h.channelOwner c hc)
    memberUser := fun m hm => hgrows.hasUser (h.memberUser m hm) }, hgrows⟩

theorem insertChannel_keeps {name : Bytes} {ownerId id : Int32} {desc : Option Bytes}
    (h : Relational db) (howner : db.HasUser ownerId)
    (hins : db.insertChannel name ownerId desc = .ok (id, db')) :
    Relational db' ∧ db.Grows db' := by
  obtain ⟨hfree, rfl, rfl⟩ := Database.insertChannel_eq_ok hins
  have hgrows : db.Grows { db with
      channels := db.channels ++ [{ id := db.nextChannelId, name, ownerId, desc }] } := by
    refine { Database.Grows.refl db with channels := ?_ }
    intro c hc
    exact List.mem_append_left _ hc
  refine ⟨{ h with
    channelIds := Table.keyed_append h.channelIds fun c hc hid => hfree ⟨c, hc, .inl hid⟩
    channelNames := Table.keyed_append h.channelNames fun c hc hname => hfree ⟨c, hc, .inr hname⟩
    channelOwner := ?_
    memberChannel := fun m hm => hgrows.hasChannel (h.memberChannel m hm)
    messageChannel := fun m hm => hgrows.hasChannel (h.messageChannel m hm) }, hgrows⟩
  intro c hc
  rcases List.mem_append.mp hc with hc | hc
  · exact h.channelOwner c hc
  · rw [List.mem_singleton.mp hc]
    exact howner

theorem insertMessage_keeps {sender channel : Int32} {content : Bytes} {sentWhen : UInt32}
    (h : Relational db) (hmem : { user := sender, channel } ∈ db.channelMembers) :
    Relational (db.insertMessage sender channel content sentWhen) ∧
      db.Grows (db.insertMessage sender channel content sentWhen) := by
  refine ⟨{ h with messageChannel := ?_, messageSender := ?_ }, { Database.Grows.refl db with }⟩
  · intro m hm
    rcases List.mem_append.mp hm with hm | hm
    · exact h.messageChannel m hm
    · rw [List.mem_singleton.mp hm]
      exact h.memberChannel _ hmem
  · intro m hm
    rcases List.mem_append.mp hm with hm | hm
    · exact h.messageSender m hm
    · rw [List.mem_singleton.mp hm]
      exact hmem

theorem replaceSessionKey_keeps {row : SessionKey} (h : Relational db)
    (huser : db.HasUser row.user) :
    Relational (db.replaceSessionKey row) ∧ db.Grows (db.replaceSessionKey row) := by
  refine ⟨{ h with sessionUser := ?_ }, { Database.Grows.refl db with }⟩
  intro s hs
  rcases Table.mem_replace.mp hs with rfl | ⟨hs, -⟩
  · exact huser
  · exact h.sessionUser s hs

theorem removeSessionKeysOf_keeps (h : Relational db) (user : Int32) :
    Relational (db.removeSessionKeysOf user) ∧ db.Grows (db.removeSessionKeysOf user) := by
  refine ⟨{ h with sessionUser := ?_ }, { Database.Grows.refl db with }⟩
  intro s hs
  exact h.sessionUser s (List.mem_filter.mp hs).1

theorem replaceChannelMember_keeps {row : ChannelMember} (h : Relational db)
    (huser : db.HasUser row.user) (hchannel : db.HasChannel row.channel) :
    Relational (db.replaceChannelMember row) ∧ db.Grows (db.replaceChannelMember row) := by
  have hmembers : ∀ m ∈ db.channelMembers, m ∈ (db.replaceChannelMember row).channelMembers := by
    intro m hm
    by_cases hkey : m.key = row.key
    · cases m
      cases row
      cases hkey
      exact Table.mem_replace.mpr (.inl rfl)
    · exact Table.mem_replace.mpr (.inr ⟨hm, hkey⟩)
  have hnew : ∀ m ∈ (db.replaceChannelMember row).channelMembers,
      m = row ∨ m ∈ db.channelMembers := by
    intro m hm
    exact (Table.mem_replace.mp hm).imp_right And.left
  refine ⟨{ h with
    memberKeys := Table.keyed_replace h.memberKeys
    memberUser := ?_
    memberChannel := ?_
    messageSender := fun m hm => hmembers _ (h.messageSender m hm) },
    { Database.Grows.refl db with members := hmembers }⟩
  · intro m hm
    rcases hnew m hm with rfl | hm
    · exact huser
    · exact h.memberUser m hm
  · intro m hm
    rcases hnew m hm with rfl | hm
    · exact hchannel
    · exact h.memberChannel m hm

theorem updateUser_keeps {row : User} (h : Relational db)
    (hrow : ∃ u ∈ db.users, u.id = row.id ∧ u.name = row.name)
    (hupd : db.updateUser row = .ok db') : Relational db' ∧ db.Grows db' := by
  obtain rfl := Database.updateUser_eq_ok hupd
  obtain ⟨old, hold, hid, hname⟩ := hrow
  have hsame : ∀ u ∈ db.users, u.id = row.id → row.name = u.name := by
    intro u hu huid
    rw [Table.eq_of_key h.userIds hu hold (huid.trans hid.symm), hname]
  have hnames : (Table.update (·.id) row db.users).map (·.name) = db.users.map (·.name) :=
    Table.map_update hsame
  have hgrows : db.Grows { db with users := Table.update (·.id) row db.users } := by
    refine { Database.Grows.refl db with users := ?_ }
    intro u hu
    refine ⟨_, List.mem_map_of_mem hu, ?_, ?_⟩
    · split
      · rename_i hkey
        exact hkey.symm
      · rfl
    · split
      · rename_i hkey
        exact hsame u hu hkey
      · rfl
  refine ⟨{ h with
    userIds := Table.keyed_update h.userIds
    userNames := ?_
    sessionUser := fun s hs => hgrows.hasUser (h.sessionUser s hs)
    channelOwner := fun c hc => hgrows.hasUser (h.channelOwner c hc)
    memberUser := fun m hm => hgrows.hasUser (h.memberUser m hm) }, hgrows⟩
  rw [Table.Keyed, hnames]
  exact h.userNames

/-- A call that is proper when it is made keeps the relations, and nothing is
taken away. -/
theorem perform_keeps (env : Env) {w : World} {c : Call} (h : Relational w.db)
    (hc : c.Proper w.db) :
    Relational (perform env c w).2.db ∧ w.db.Grows (perform env c w).2.db := by
  cases c with
  | insertUser name pass =>
    simp only [perform]
    split
    · rename_i hins
      exact insertUser_keeps h hins
    · exact ⟨h, .refl _⟩
  | insertChannel name ownerId desc =>
    simp only [perform]
    split
    · rename_i hins
      exact insertChannel_keeps h hc hins
    · exact ⟨h, .refl _⟩
  | insertMessage sender channel content sentWhen => exact insertMessage_keeps h hc
  | replaceSessionKey row => exact replaceSessionKey_keeps h hc
  | replaceChannelMember row => exact replaceChannelMember_keeps h hc.1 hc.2
  | updateUser row =>
    simp only [perform]
    split
    · rename_i hupd
      exact updateUser_keeps h hc hupd
    · exact ⟨h, .refl _⟩
  | removeSessionKeysOf user => exact removeSessionKeysOf_keeps h user
  | _ => exact ⟨h, .refl _⟩

end Writes

/-- The relations hold, and nothing is taken away. -/
def tables : Discipline World where
  Inv w := Relational w.db
  Grows w v := w.db.Grows v.db
  refl w := .refl w.db
  trans h h' := h.trans h'

end Dotchat
