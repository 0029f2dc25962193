import Dotchat.SerialOrders

/-!
The two writes of new_channel. Between them the channel is there and has no
member. Whoever looks for its members then is told that there are none, and may
as well have looked before; to everyone else it does not matter whether the owner
becomes a member at once. Only an invitation of the owner to his new channel can
tell.
-/
namespace Dotchat

open Db Handlers Program

/-- The same rows; the memberships may be stored in another order. -/
structure Database.SameRows (db db' : Database) : Prop where
  users : db.users = db'.users
  sessionKeys : db.sessionKeys = db'.sessionKeys
  channels : db.channels = db'.channels
  channelMembers : db.channelMembers.Perm db'.channelMembers
  messages : db.messages = db'.messages

theorem Database.SameRows.refl (db : Database) : db.SameRows db :=
  ⟨rfl, rfl, rfl, .refl _, rfl⟩

/-- The order of two insertions shows in the order of the rows only. -/
theorem sameRows_replaceChannelMember (row row' : ChannelMember) (db : Database) :
    ((db.replaceChannelMember row).replaceChannelMember row').SameRows
      ((db.replaceChannelMember row').replaceChannelMember row) := by
  refine ⟨rfl, rfl, rfl, ?_, rfl⟩
  by_cases hkey : row.key = row'.key
  · obtain ⟨user, channel⟩ := row
    obtain ⟨user', channel'⟩ := row'
    cases hkey
    exact .refl _
  · exact Table.replace_perm hkey

section Yields

variable {row : ChannelMember} {α : Type} {X : Outcome Exc α → Prop}

/-- Nothing but the memberships decides whether the new one comes before or behind. -/
abbrev YieldsTo (row : ChannelMember) (X : Outcome Exc α → Prop) (p : Handler α) : Prop :=
  ∀ db, Yields operate (fun db => db.replaceChannelMember row) Database.SameRows X p db

/-- The calls that read or write the memberships. -/
def Call.ofMembers : Call → Bool
  | .getChannelMember _ _ | .membersOf _ | .membershipsOf _ _ | .channelsOf _
  | .mutualChannels _ _ | .replaceChannelMember _ => true
  | _ => false

theorem operate_replaceChannelMember (row : ChannelMember) {c : Call} (hc : c.ofMembers = false)
    (db : Database) : operate c (db.replaceChannelMember row) =
      ((operate c db).1, (operate c db).2.replaceChannelMember row) := by
  have hf : SparesNames fun db => db.replaceChannelMember row :=
    ⟨fun _ => rfl, fun _ => rfl, fun _ _ => rfl, fun _ _ => rfl⟩
  cases c with
  | getChannelMember | membersOf | membershipsOf | channelsOf | mutualChannels
  | replaceChannelMember => cases hc
  | insertUser | insertChannel | updateUser => exact hf.operate rfl db
  | _ => rfl

/-- A query that the membership has no influence on. -/
theorem operate_of_unseen {c : Call} {read : Database → c.Answer}
    (hread : ∀ db, read (db.replaceChannelMember row) = read db)
    (hc : ∀ db, operate c db = (.ok (read db), db)) (db : Database) :
    operate c (db.replaceChannelMember row) =
      ((operate c db).1, (operate c db).2.replaceChannelMember row) := by
  rw [hc, hc, hread]

theorem yieldsTo_call {c : Call} {next : Except Exc c.Answer → Handler α}
    (hc : ∀ db, operate c (db.replaceChannelMember row) =
      ((operate c db).1, (operate c db).2.replaceChannelMember row))
    (h : ∀ a, YieldsTo row X (next a)) : YieldsTo row X (.call c next) := by
  intro db
  have hdb := hc db
  refine .inl ⟨?_, .inl ⟨?_, h _ _⟩⟩
  · rw [hdb]
  · rw [hdb]

theorem yieldsTo_query {c : Call} {k : c.Answer → Handler α}
    (hc : ∀ db, operate c (db.replaceChannelMember row) =
      ((operate c db).1, (operate c db).2.replaceChannelMember row))
    (h : ∀ a, YieldsTo row X (k a)) : YieldsTo row X (query c k) := by
  apply yieldsTo_call hc
  intro a
  cases a with
  | ok a => exact h a
  | error e => exact fun _ => trivial

/-- The last call may be another insertion of a membership. -/
theorem yieldsTo_join {row' : ChannelMember} {k : Unit → Handler α}
    (h : ∀ a, (k a).ended = true) : YieldsTo row X (query (.replaceChannelMember row') k) :=
  fun db => .inl ⟨rfl, .inr ⟨h (), sameRows_replaceChannelMember row row' db⟩⟩

theorem yieldsTo_session {r : Readings} {token : Int32} {k : User → Handler α}
    (h : ∀ u, YieldsTo row X (k u)) : YieldsTo row X (session r token k) := by
  apply yieldsTo_query (operate_replaceChannelMember row rfl)
  intro s
  cases s with
  | none => exact fun _ => trivial
  | some s =>
    show YieldsTo row X (ite _ _ _)
    split
    · apply yieldsTo_query (operate_replaceChannelMember row rfl)
      intro u
      cases u with
      | none => exact fun _ => trivial
      | some u => exact h u
    · exact fun _ => trivial

theorem yieldsTo_search {key : Int32} {k : Handler α} (h : YieldsTo row X k) (r : Readings)
    (turns : ℕ) : YieldsTo row X (search key k r turns) := by
  induction turns generalizing r with
  | zero => exact fun _ => trivial
  | succ turns ih =>
    apply yieldsTo_call (operate_replaceChannelMember row rfl)
    intro s
    match s with
    | .error e =>
      cases e with
      | protoError _ => exact h
      | _ => exact fun _ => trivial
    | .ok none => exact h
    | .ok (some s) =>
      show YieldsTo row X (ite _ _ _)
      split
      · apply yieldsTo_call (operate_replaceChannelMember row rfl)
        intro u
        match u with
        | .error e =>
          cases e with
          | protoError _ => exact h
          | _ => exact fun _ => trivial
        | .ok none => exact fun _ => trivial
        | .ok (some u) => exact ih _
      · exact h

/-- The owner is invited into his new channel. -/
def InvitesTo (row : ChannelMember) (req : Request) : Prop :=
  ∃ q, req = .inviteUser q ∧ q.chanId = row.channel ∧ q.uid = row.user

/-- An invitation, of another user or to another channel. -/
theorem yieldsTo_invite {X : Outcome Exc Response → Prop} {q : InviteUserRequest} {c : Channel}
    (hX : q.chanId = row.channel → q.uid = row.user → X (.returned (.okay {}))) :
    YieldsTo row X (inviteScript c q) := by
  apply yieldsTo_query (operate_replaceChannelMember row rfl)
  intro v
  cases v with
  | none => exact fun _ => trivial
  | some v =>
    by_cases hsame : q.chanId = row.channel ∧ q.uid = row.user
    · intro db
      by_cases hfree : db.membershipsOf q.chanId q.uid = []
      · right
        show EndsIn operate X (ite _ _ _)
        rw [if_neg (not_not.mpr hfree)]
        exact fun _ => hX hsame.1 hsame.2
      · have hmem : row ∈ (db.replaceChannelMember row).membershipsOf q.chanId q.uid := by
          rw [Database.membershipsOf, List.mem_filter]
          exact ⟨Table.mem_replace.mpr (.inl rfl), by simp [hsame]⟩
        refine .inl ⟨?_, .inl ⟨rfl, ?_⟩⟩
        · show ite _ _ _ = ite _ _ _
          rw [if_pos (List.ne_nil_of_mem hmem), if_pos hfree]
        · show Yields _ _ _ _ (ite _ _ _) _
          rw [if_pos hfree]
          trivial
    · have hother : row.channel = q.chanId → row.user ≠ q.uid :=
        fun hchan huser => hsame ⟨hchan.symm, huser.symm⟩
      apply yieldsTo_query
        (operate_of_unseen (membershipsOf_replaceChannelMember hother) fun _ => rfl)
      intro joined
      show YieldsTo row X (ite _ _ _)
      split
      · exact fun _ => trivial
      · exact yieldsTo_join fun _ => rfl

/-- The requests to which it matters whether the owner of a channel is a member
already. -/
def Request.looksInto (channel : Int32) : Request → Prop
  | .channelList _ | .channelMsg _ | .userDetails _ => True
  | .sendMsg q => q.chanId = channel
  | .channelDetails q => q.chanId = channel
  | _ => False

/-- The other requests come to the same if he becomes a member at once. -/
theorem yieldsTo_request {r : Readings} {turns : ℕ} {req : Request}
    (hreq : ¬ req.looksInto row.channel) :
    YieldsTo row (fun o => InvitesTo row req ∧ o = .returned (.okay {}))
      (answer r (respond turns req)) := by
  cases req with
  | channelList _ | channelMsg _ | userDetails _ => exact absurd trivial hreq
  | login l =>
    rw [answer_login]
    apply yieldsTo_query (operate_replaceChannelMember row rfl)
    intro users
    cases users with
    | nil => exact fun _ => trivial
    | cons u others =>
      show YieldsTo row _ (ite _ _ _)
      split
      · exact fun _ => trivial
      · apply yieldsTo_search
        exact yieldsTo_query (operate_replaceChannelMember row rfl) fun _ _ => trivial
  | newUser q =>
    rw [answer_newUser]
    exact yieldsTo_query (operate_replaceChannelMember row rfl) fun _ _ => trivial
  | logout q =>
    rw [answer_token rfl]
    apply yieldsTo_session
    exact fun _ => yieldsTo_query (operate_replaceChannelMember row rfl) fun _ _ => trivial
  | changePass q =>
    rw [answer_token rfl]
    apply yieldsTo_session
    exact fun _ => yieldsTo_query (operate_replaceChannelMember row rfl) fun _ _ => trivial
  | sendMsg q =>
    rw [answer_token rfl]
    apply yieldsTo_session
    intro u
    apply yieldsTo_query (operate_of_unseen
      (getChannelMember_replaceChannelMember fun hchan => hreq hchan.symm) fun _ => rfl)
    intro m
    show YieldsTo row _ (ite _ _ _)
    split
    · exact yieldsTo_query (operate_replaceChannelMember row rfl) fun _ _ => trivial
    · exact fun _ => trivial
  | channelDetails q =>
    rw [answer_token rfl]
    apply yieldsTo_session
    intro u
    apply yieldsTo_query (operate_of_unseen
      (membersOf_replaceChannelMember fun hchan => hreq hchan.symm) fun _ => rfl)
    intro members
    show YieldsTo row _ (ite _ _ _)
    split
    · apply yieldsTo_query (operate_replaceChannelMember row rfl)
      intro c
      cases c <;> exact fun _ => trivial
    · exact fun _ => trivial
  | newChannel q =>
    rw [answer_token rfl]
    apply yieldsTo_session
    intro u
    apply yieldsTo_query (operate_replaceChannelMember row rfl)
    exact fun _ => yieldsTo_join fun _ => rfl
  | inviteUser q =>
    rw [answer_token rfl]
    apply yieldsTo_session
    intro u
    apply yieldsTo_query (operate_replaceChannelMember row rfl)
    intro c
    cases c with
    | none => exact fun _ => trivial
    | some c =>
      show YieldsTo row _ (ite _ _ _)
      split
      · exact fun _ => trivial
      · exact yieldsTo_invite fun hchan huid => ⟨⟨q, rfl, hchan, huid⟩, rfl⟩

end Yields

section Reads

variable {α : Type} {db v : Database}

/-- The program reads to the same end in both databases. -/
def ReadsAlike (db v : Database) (p : Handler α) : Prop :=
  ∃ o, Advances operate db p (.done o) ∧ Advances operate v p (.done o)

theorem readsAlike_query {c : Call} {k : c.Answer → Handler α} {a : c.Answer}
    (hdb : operate c db = (.ok a, db)) (hv : operate c v = (.ok a, v))
    (h : ReadsAlike db v (k a)) : ReadsAlike db v (query c k) := by
  obtain ⟨o, ho, ho'⟩ := h
  refine ⟨o, .call ?_ ?_, .call ?_ ?_⟩
  · rw [hdb]
  · rw [hdb]
    exact ho
  · rw [hv]
  · rw [hv]
    exact ho'

theorem ReadsAlike.done (o : Outcome Exc α) : ReadsAlike db v (.done o) :=
  ⟨o, .refl _, .refl _⟩

theorem readsAlike_session {cs : List Channel} {r : Readings} {token : Int32}
    {k : User → Handler α} (h : ∀ u, ReadsAlike db { db with channels := cs } (k u)) :
    ReadsAlike db { db with channels := cs } (session r token k) := by
  apply readsAlike_query rfl rfl
  cases db.getSessionKey token with
  | none => exact .done _
  | some s =>
    show ReadsAlike _ _ (ite _ _ _)
    split
    · apply readsAlike_query rfl rfl
      cases db.getUser s.user with
      | none => exact .done _
      | some u => exact h u
    · exact .done _

section Empty

variable {c : Channel}

/-- A channel without members is listed to nobody. -/
theorem channelsOf_empty (hnone : ∀ m ∈ db.channelMembers, m.channel ≠ c.id) (user : Int32) :
    ({ db with channels := db.channels ++ [c] } : Database).channelsOf user =
      db.channelsOf user := by
  have hempty : (db.channelMembers.filter fun m => m.channel = c.id ∧ m.user = user) = [] := by
    rw [List.filter_eq_nil_iff]
    intro m hm
    simp [hnone m hm]
  simp only [Database.channelsOf, List.flatMap_append, List.flatMap_cons, List.flatMap_nil,
    hempty, List.map_nil, List.append_nil]

theorem getChannelMember_empty {channel : Int32}
    (hnone : ∀ m ∈ db.channelMembers, m.channel ≠ channel) (user : Int32) :
    db.getChannelMember user channel = none := by
  refine Table.lookup_eq_none.mpr ?_
  intro m hm hkey
  exact hnone m hm (congrArg Prod.snd hkey)

theorem not_mem_membersOf_empty {channel : Int32}
    (hnone : ∀ m ∈ db.channelMembers, m.channel ≠ channel) (user : Int32) :
    user ∉ db.membersOf channel := by
  intro hmem
  obtain ⟨m, hm, -⟩ := List.mem_map.mp hmem
  obtain ⟨hm, hchan⟩ := List.mem_filter.mp hm
  exact hnone m hm (decide_eq_true_eq.mp hchan)

end Empty

/-- As long as a channel has no member, nobody sees more of it than before it was
there. -/
theorem readsAlike_request {c : Channel} (hnone : ∀ m ∈ db.channelMembers, m.channel ≠ c.id)
    (hv : v = { db with channels := db.channels ++ [c] }) {r : Readings} {turns : ℕ}
    {req : Request} (hreq : req.looksInto c.id) :
    ReadsAlike db v (answer r (respond turns req)) := by
  subst hv
  cases req with
  | channelList q =>
    rw [answer_token rfl]
    apply readsAlike_session
    intro u
    have hv : operate (.channelsOf u.id) { db with channels := db.channels ++ [c] } =
        (.ok (db.channelsOf u.id), { db with channels := db.channels ++ [c] }) := by
      rw [← channelsOf_empty hnone u.id]
      rfl
    exact readsAlike_query rfl hv (.done _)
  | channelMsg q =>
    rw [answer_token rfl]
    apply readsAlike_session
    intro u
    apply readsAlike_query rfl rfl
    show ReadsAlike _ _ (ite _ _ _)
    split
    · exact readsAlike_query rfl rfl (.done _)
    · exact .done _
  | userDetails q =>
    rw [answer_token rfl]
    apply readsAlike_session
    intro u
    apply readsAlike_query rfl rfl
    cases db.getUser q.uid with
    | none => exact .done _
    | some v => exact readsAlike_query rfl rfl (.done _)
  | sendMsg q =>
    rw [answer_token rfl]
    apply readsAlike_session
    intro u
    rw [← hreq] at hnone
    apply readsAlike_query rfl rfl
    rw [getChannelMember_empty hnone]
    exact .done _
  | channelDetails q =>
    rw [answer_token rfl]
    apply readsAlike_session
    intro u
    rw [← hreq] at hnone
    apply readsAlike_query rfl rfl
    show ReadsAlike _ _ (ite _ _ _)
    rw [if_neg (not_mem_membersOf_empty hnone u.id)]
    exact .done _
  | login _ | logout _ | newChannel _ | newUser _ | changePass _ | inviteUser _ => cases hreq

end Reads
end Dotchat
