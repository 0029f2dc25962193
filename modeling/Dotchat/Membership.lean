import Dotchat.Overtaking
import Dotchat.Sessions

/-!
Who is in which channel, as the requests show it. The handlers look it up in
five ways: an inner join, a lookup by the composite key, a scan of the members
followed by a lookup of the channel, a filter on both columns, and a self-join.
In a reachable state ids and keys are unique and each membership has its
channel, so that the first four show the relation that is stored. The self-join
of `user_details` is given the same user twice.
-/
namespace Dotchat

open Db Handlers

namespace Database

variable (db : Database)

/-- The relation that the queries are about. -/
def Member (user channel : Int32) : Prop := { user, channel } ∈ db.channelMembers

instance (user channel : Int32) : Decidable (db.Member user channel) :=
  inferInstanceAs (Decidable (_ ∈ _))

section Queries

variable {db} {user channel : Int32}

theorem mem_membersOf : user ∈ db.membersOf channel ↔ db.Member user channel := by
  unfold membersOf Member
  rw [List.mem_map]
  constructor
  · rintro ⟨m, hm, rfl⟩
    obtain ⟨hmem, hchannel⟩ := List.mem_filter.mp hm
    rw [← of_decide_eq_true hchannel]
    exact hmem
  · intro h
    exact ⟨_, List.mem_filter.mpr ⟨h, decide_eq_true rfl⟩, rfl⟩

theorem membershipsOf_ne_nil : db.membershipsOf channel user ≠ [] ↔ db.Member user channel := by
  rw [ne_eq, membershipsOf_eq_nil, Member]
  constructor
  · intro h
    by_contra hno
    apply h
    intro m hm hkey
    cases hkey
    exact hno hm
  · exact fun h hall => hall _ h rfl

/-- The inner join finds each channel whose membership is stored. -/
theorem mem_channelsOf_iff (hmember : ∀ m ∈ db.channelMembers, db.HasChannel m.channel) :
    channel ∈ (db.channelsOf user).map (·.1) ↔ db.Member user channel := by
  unfold channelsOf Member
  simp only [List.map_flatMap, List.mem_flatMap, List.map_map, List.mem_map, List.mem_filter,
    decide_eq_true_eq]
  constructor
  · rintro ⟨c, -, m, ⟨hm, hchannel, huser⟩, rfl⟩
    rw [← hchannel, ← huser]
    exact hm
  · intro h
    obtain ⟨c, hc, hid⟩ := hmember _ h
    exact ⟨c, hc, _, ⟨h, hid.symm, rfl⟩, hid⟩

theorem mem_mutualChannels {uid userId : Int32} :
    channel ∈ db.mutualChannels uid userId ↔ db.Member uid channel ∧ db.Member userId channel := by
  unfold mutualChannels Member
  simp only [List.mem_map, List.mem_filter, decide_eq_true_eq]
  constructor
  · rintro ⟨m, ⟨hm, huser, m', ⟨hm', huser'⟩, hchannel⟩, rfl⟩
    rw [← huser, ← huser']
    refine ⟨hm, ?_⟩
    rw [← hchannel]
    exact hm'
  · rintro ⟨h, h'⟩
    exact ⟨_, ⟨h, rfl, _, ⟨h', rfl⟩, rfl⟩, rfl⟩

/-- The channels of memberships of one user are distinct. -/
theorem nodup_channels_of_user (hkeys : Table.Keyed (·.key) db.channelMembers) (user : Int32)
    {p : ChannelMember → Bool} (hp : ∀ m, p m = true → m.user = user) :
    ((db.channelMembers.filter p).map (·.channel)).Nodup := by
  apply List.Nodup.map_on
  · intro m hm m' hm' hchannel
    obtain ⟨hmem, huser⟩ := List.mem_filter.mp hm
    obtain ⟨hmem', huser'⟩ := List.mem_filter.mp hm'
    apply Table.eq_of_key hkeys hmem hmem'
    simp only [ChannelMember.key, hchannel, hp m huser, hp m' huser']
  · exact (List.Nodup.of_map _ hkeys).filter _

theorem nodup_membersOf (hkeys : Table.Keyed (·.key) db.channelMembers) (channel : Int32) :
    (db.membersOf channel).Nodup := by
  unfold membersOf
  apply List.Nodup.map_on
  · intro m hm m' hm' huser
    obtain ⟨hmem, hchannel⟩ := List.mem_filter.mp hm
    obtain ⟨hmem', hchannel'⟩ := List.mem_filter.mp hm'
    apply Table.eq_of_key hkeys hmem hmem'
    simp only [ChannelMember.key, huser, of_decide_eq_true hchannel, of_decide_eq_true hchannel']
  · exact (List.Nodup.of_map _ hkeys).filter _

theorem nodup_mutualChannels (hkeys : Table.Keyed (·.key) db.channelMembers)
    (uid userId : Int32) : (db.mutualChannels uid userId).Nodup :=
  nodup_channels_of_user hkeys uid fun _ h => (of_decide_eq_true h).1

/-- The join lists no channel twice. -/
theorem nodup_channelsOf (hkeys : Table.Keyed (·.key) db.channelMembers)
    (hids : Table.Keyed (·.id) db.channels) (user : Int32) :
    ((db.channelsOf user).map (·.1)).Nodup := by
  unfold channelsOf
  rw [List.map_flatMap]
  have hrow : ∀ c : Channel, ((db.channelMembers.filter fun m =>
      m.channel = c.id ∧ m.user = user).map fun _ => (c.id, c.name)).map (·.1) =
        (db.channelMembers.filter fun m => m.channel = c.id ∧ m.user = user).map (·.channel) := by
    intro c
    rw [List.map_map]
    apply List.map_congr_left
    intro m hm
    exact (of_decide_eq_true (List.mem_filter.mp hm).2).1.symm
  simp only [hrow]
  apply List.nodup_flatMap.mpr
  constructor
  · intro c _
    exact nodup_channels_of_user hkeys user fun _ h => (of_decide_eq_true h).2
  · have hdistinct : db.channels.Pairwise fun c c' => c.id ≠ c'.id := List.pairwise_map.mp hids
    refine hdistinct.imp ?_
    intro c c' hne x hx hx'
    obtain ⟨m, hm, rfl⟩ := List.mem_map.mp hx
    obtain ⟨m', hm', hsame⟩ := List.mem_map.mp hx'
    have hc := (of_decide_eq_true (List.mem_filter.mp hm).2).1
    have hc' := (of_decide_eq_true (List.mem_filter.mp hm').2).1
    exact hne (hc.symm.trans (hsame.symm.trans hc'))

end Queries
end Database

theorem Reachable.relational {env : Env} {Admitted : Message → Prop} {w : World}
    (h : Reachable env Admitted w) : Relational w.db :=
  Steps.invariant h relational_initial fun _ _ _ _ _ _ _ _ hrel hw => (written_keeps hrel hw).1

/-- The message carries the request, with a live token of the user. -/
structure Asks (env : Env) (w : World) (u : User) (m : Message) (req : Request) : Prop where
  parses : req.Parses m
  accepted : ∃ token, req.token = some token ∧ Accepted env w token u

/-- The message is answered ok. -/
def Okayed (env : Env) (turns : ℕ) (w : World) (m : Message) : Prop :=
  ∃ reply, (serve env turns m w).1 = .returned reply ∧ reply.cmd = ascii ResponseCommands.okay

/-- The message is answered ok, and the reply is read as this response. -/
def OkayedWith {Res : Type} (ofMessage : Message → Except Exc Res) (env : Env) (turns : ℕ)
    (w : World) (m : Message) (res : Res) : Prop :=
  ∃ reply, (serve env turns m w).1 = .returned reply ∧
    reply.cmd = ascii ResponseCommands.okay ∧ ofMessage reply = .ok res

/-- The requests whose handlers only query the database. -/
def Request.Queries : Request → Prop
  | channelList _ | channelMsg _ | channelDetails _ | userDetails _ => True
  | _ => False

section Asks

variable {env : Env} {turns : ℕ} {w w' : World} {u : User} {m : Message} {req : Request}
  {o : Outcome Exc Response}

theorem Asks.served (h : Asks env w u m req) (turns : ℕ) : ∃ o w',
    Handled env w req (o, w') ∧ (serve env turns m w).1 = replyOf Response.toMessage o := by
  obtain ⟨o, w', hhandled, -, hserve⟩ := serve_of_parses env turns w h.parses
  exact ⟨o, w', hhandled, by rw [hserve]⟩

theorem Asks.token (h : Asks env w u m req) {token : Int32} (ht : req.token = some token) :
    Accepted env w token u := by
  obtain ⟨token', htoken, hu⟩ := h.accepted
  rw [ht] at htoken
  cases htoken
  exact hu

/-- A query with a live token is answered or denied. -/
theorem Asks.query (h : Asks env w u m req) (hq : req.Queries)
    (hhandled : Handled env w req (o, w')) :
    (∃ s, Answers w.db u req s ∧ o = .returned s) ∨
      ∃ what, Denies w.db u req what ∧ o = .threw (.protoError what) := by
  cases hhandled with
  | rejected ht hno _ => exact absurd hno (h.token ht).not_rejected
  | orphaned ht hno => exact absurd hno (h.token ht).not_orphaned
  | refused ht hu hdenies =>
    obtain rfl := (h.token ht).unique hu
    exact .inr ⟨_, hdenies, rfl⟩
  | answered ht hu hs =>
    obtain rfl := (h.token ht).unique hu
    exact .inl ⟨_, hs, rfl⟩
  | _ => exact hq.elim

theorem Asks.sendMsg {r : MessageSendRequest} (h : Asks env w u m (.sendMsg r))
    (hhandled : Handled env w (.sendMsg r) (o, w')) :
    ((w.db.getChannelMember u.id r.chanId).isSome ∧ o = .returned (.okay {})) ∨
      (w.db.getChannelMember u.id r.chanId = none ∧ ∃ what, o = .threw (.protoError what)) := by
  cases hhandled with
  | rejected ht hno _ => exact absurd hno (h.token ht).not_rejected
  | orphaned ht hno => exact absurd hno (h.token ht).not_orphaned
  | refused ht hu hdenies =>
    obtain rfl := (h.token ht).unique hu
    cases hdenies with
    | sendMsg hnone => exact .inr ⟨hnone, _, rfl⟩
  | answered _ _ hs => cases hs
  | sentMsg hu hmem =>
    obtain rfl := (h.token rfl).unique hu
    exact .inl ⟨hmem, rfl⟩

/-- An invitation to a channel with a live token of its owner. -/
theorem Asks.inviteUser (hrel : Relational w.db) {r : InviteUserRequest} {v : User} {c : Channel}
    (h : Asks env w u m (.inviteUser r)) (hc : c ∈ w.db.channels) (hid : c.id = r.chanId)
    (howner : c.ownerId = u.id) (hv : v ∈ w.db.users) (huid : v.id = r.uid)
    (hhandled : Handled env w (.inviteUser r) (o, w')) :
    (w.db.membershipsOf r.chanId r.uid ≠ [] ∧
        o = .threw (.protoError (ascii "That user has already joined that channel."))) ∨
      (w.db.membershipsOf r.chanId r.uid = [] ∧ o = .returned (.okay {})) := by
  have hchannel : w.db.getChannel r.chanId = some c :=
    (Table.lookup_eq_some hrel.channelIds).mpr ⟨hc, hid⟩
  have huser : w.db.getUser r.uid = some v := (Table.lookup_eq_some hrel.userIds).mpr ⟨hv, huid⟩
  cases hhandled with
  | rejected ht hno _ => exact absurd hno (h.token ht).not_rejected
  | orphaned ht hno => exact absurd hno (h.token ht).not_orphaned
  | refused ht hu hdenies =>
    obtain rfl := (h.token ht).unique hu
    cases hdenies with
    | inviteNoChannel hnone =>
      rw [hchannel] at hnone
      cases hnone
    | inviteNoOwner hc' hother =>
      rw [hchannel] at hc'
      cases hc'
      exact absurd howner hother
    | inviteNoUser _ _ hnone =>
      rw [huser] at hnone
      cases hnone
    | inviteJoined _ _ hjoined => exact .inl ⟨hjoined, rfl⟩
  | answered _ _ hs => cases hs
  | invited _ _ _ _ hnew => exact .inr ⟨hnew, rfl⟩

/-- The ok replies are those to responses. -/
theorem okayed_of_reply (h : (serve env turns m w).1 = replyOf Response.toMessage o) :
    Okayed env turns w m ↔ ∃ s, o = .returned s := by
  unfold Okayed
  rw [h]
  cases o with
  | returned s =>
    obtain ⟨mods, hmods⟩ := s.toMessage_eq_ok
    simp only [replyOf, hmods]
    exact iff_of_true ⟨_, rfl, rfl⟩ ⟨s, rfl⟩
  | threw e =>
    constructor
    · rintro ⟨reply, hreply, hcmd⟩
      cases e with
      | protoError what =>
        cases hreply
        have hne : ascii ResponseCommands.error = ascii ResponseCommands.okay := hcmd
        exact absurd hne (by decide)
      | _ => cases hreply
    · rintro ⟨s, hs⟩
      cases hs
  | running =>
    constructor
    · rintro ⟨reply, hreply, -⟩
      cases hreply
    · rintro ⟨s, hs⟩
      cases hs

/-- What the client reads from an ok reply. -/
theorem okayedWith_of_returned {Res : Type} {ofMessage : Message → Except Exc Res} {s : Response}
    {res : Res} (h : (serve env turns m w).1 = replyOf Response.toMessage (.returned s))
    (hread : ∀ reply, s.toMessage = .ok reply → ofMessage reply = .ok res) (res' : Res) :
    OkayedWith ofMessage env turns w m res' ↔ res' = res := by
  obtain ⟨mods, hmods⟩ := s.toMessage_eq_ok
  simp only [replyOf, hmods] at h
  unfold OkayedWith
  rw [h]
  constructor
  · rintro ⟨reply, hreply, -, hres⟩
    cases hreply
    rw [hread _ hmods] at hres
    cases hres
    rfl
  · rintro rfl
    exact ⟨_, rfl, rfl, hread _ hmods⟩

theorem not_okayedWith_of_threw {Res : Type} {ofMessage : Message → Except Exc Res} {what : Bytes}
    (h : (serve env turns m w).1 = replyOf Response.toMessage (.threw (.protoError what)))
    (res : Res) : ¬ OkayedWith ofMessage env turns w m res := by
  rintro ⟨reply, hreply, hcmd, -⟩
  have hokay := (okayed_of_reply h).mp ⟨reply, hreply, hcmd⟩
  obtain ⟨s, hs⟩ := hokay
  cases hs

end Asks

/-- What a user may send to find out about a channel. -/
structure Probes (env : Env) (w : World) (u : User) (c : Int32)
    (list read send details : Message) : Prop where
  list : ∃ r, Asks env w u list (.channelList r)
  read : ∃ r, Asks env w u read (.channelMsg r) ∧ r.chanId = c
  send : ∃ r, Asks env w u send (.sendMsg r) ∧ r.chanId = c
  details : ∃ r, Asks env w u details (.channelDetails r) ∧ r.chanId = c

/-- The message invites an existing user to a channel of the sender. -/
def Invites (env : Env) (w : World) (owner v : User) (c : Int32) (m : Message) : Prop :=
  ∃ r, Asks env w owner m (.inviteUser r) ∧ r.chanId = c ∧ r.uid = v.id ∧ v ∈ w.db.users ∧
    ∃ channel ∈ w.db.channels, channel.id = c ∧ channel.ownerId = owner.id

/-- The reply to an invitation of a member. -/
def alreadyJoined : Message :=
  ErrorResponse.toMessage { reason := ascii "That user has already joined that channel." }

section Views

variable {env : Env} {turns : ℕ} {w : World} {u : User} {m : Message}

theorem listed_iff (hrel : Relational w.db) {r : ChannelListRequest}
    (h : Asks env w u m (.channelList r)) (c : Int32) :
    (∃ res, OkayedWith ChannelListResponse.ofMessage env turns w m res ∧
      c ∈ res.data.map (·.id)) ↔ w.db.Member u.id c := by
  obtain ⟨o, w', hhandled, hserve⟩ := h.served turns
  obtain ⟨s, hs, rfl⟩ | ⟨what, hdenies, rfl⟩ := h.query trivial hhandled
  · cases hs
    simp only [okayedWith_of_returned hserve fun _ => ChannelListResponse.ofMessage_toMessage,
      exists_eq_left, List.map_map]
    exact Database.mem_channelsOf_iff hrel.memberChannel
  · cases hdenies

theorem nodup_listed (hrel : Relational w.db) {r : ChannelListRequest}
    (h : Asks env w u m (.channelList r)) {res : ChannelListResponse}
    (hres : OkayedWith ChannelListResponse.ofMessage env turns w m res) :
    (res.data.map (·.id)).Nodup := by
  obtain ⟨o, w', hhandled, hserve⟩ := h.served turns
  obtain ⟨s, hs, rfl⟩ | ⟨what, hdenies, rfl⟩ := h.query trivial hhandled
  · cases hs
    rw [okayedWith_of_returned hserve fun _ => ChannelListResponse.ofMessage_toMessage] at hres
    subst hres
    rw [List.map_map]
    exact Database.nodup_channelsOf hrel.memberKeys hrel.channelIds u.id
  · cases hdenies

/-- The messages of a channel are read by its members. -/
theorem okayed_read_iff {r : ChannelMsgRequest} (h : Asks env w u m (.channelMsg r)) :
    Okayed env turns w m ↔ w.db.Member u.id r.chanId := by
  obtain ⟨o, w', hhandled, hserve⟩ := h.served turns
  rw [okayed_of_reply hserve, Database.Member, ← Database.getChannelMember_isSome]
  obtain ⟨s, hs, rfl⟩ | ⟨what, hdenies, rfl⟩ := h.query trivial hhandled
  · cases hs with
    | channelMsg hmem => exact iff_of_true ⟨_, rfl⟩ hmem
  · cases hdenies with
    | channelMsg hnone =>
      rw [hnone]
      exact iff_of_false nofun nofun

theorem okayed_send_iff {r : MessageSendRequest} (h : Asks env w u m (.sendMsg r)) :
    Okayed env turns w m ↔ w.db.Member u.id r.chanId := by
  obtain ⟨o, w', hhandled, hserve⟩ := h.served turns
  rw [okayed_of_reply hserve, Database.Member, ← Database.getChannelMember_isSome]
  obtain ⟨hmem, rfl⟩ | ⟨hnone, what, rfl⟩ := h.sendMsg hhandled
  · exact iff_of_true ⟨_, rfl⟩ hmem
  · rw [hnone]
    exact iff_of_false nofun nofun

/-- The details of a channel are read by its members, and list them. -/
theorem detailed_iff (hrel : Relational w.db) {r : ChannelDetailsRequest}
    (h : Asks env w u m (.channelDetails r)) :
    (∃ res, OkayedWith ChannelDetailsResponse.ofMessage env turns w m res ∧
      u.id ∈ res.members) ↔ w.db.Member u.id r.chanId := by
  obtain ⟨o, w', hhandled, hserve⟩ := h.served turns
  rw [← Database.mem_membersOf]
  obtain ⟨s, hs, rfl⟩ | ⟨what, hdenies, rfl⟩ := h.query trivial hhandled
  · cases hs with
    | channelDetails hmem hc =>
      simp only [okayedWith_of_returned hserve fun _ => ChannelDetailsResponse.ofMessage_toMessage,
        exists_eq_left]
  · refine iff_of_false ?_ ?_
    · rintro ⟨res, hres, -⟩
      exact not_okayedWith_of_threw hserve res hres
    · intro hmem
      cases hdenies with
      | detailsNoMember hno => exact hno hmem
      | detailsNoChannel _ hnone =>
        have hchannel := hrel.memberChannel _ (Database.mem_membersOf.mp hmem)
        rw [Database.getChannel, Table.lookup_eq_none] at hnone
        obtain ⟨c, hc, hid⟩ := hchannel
        exact hnone c hc hid

theorem nodup_detailed (hrel : Relational w.db) {r : ChannelDetailsRequest}
    (h : Asks env w u m (.channelDetails r)) {res : ChannelDetailsResponse}
    (hres : OkayedWith ChannelDetailsResponse.ofMessage env turns w m res) : res.members.Nodup := by
  obtain ⟨o, w', hhandled, hserve⟩ := h.served turns
  obtain ⟨s, hs, rfl⟩ | ⟨what, hdenies, rfl⟩ := h.query trivial hhandled
  · cases hs with
    | channelDetails hmem hc =>
      rw [okayedWith_of_returned hserve fun _ => ChannelDetailsResponse.ofMessage_toMessage] at hres
      subst hres
      exact Database.nodup_membersOf hrel.memberKeys r.chanId
  · exact absurd hres (not_okayedWith_of_threw hserve res)

theorem alreadyJoined_iff (hrel : Relational w.db) {owner v : User} {c : Int32}
    (h : Invites env w owner v c m) :
    (serve env turns m w).1 = .returned alreadyJoined ↔ w.db.Member v.id c := by
  obtain ⟨r, hasks, rfl, huid, hv, channel, hchannel, hid, howner⟩ := h
  obtain ⟨o, w', hhandled, hserve⟩ := hasks.served turns
  rw [hserve, ← Database.membershipsOf_ne_nil, ← huid]
  obtain ⟨hjoined, rfl⟩ | ⟨hnew, rfl⟩ :=
    hasks.inviteUser hrel hchannel hid howner hv huid.symm hhandled
  · exact iff_of_true rfl hjoined
  · refine iff_of_false ?_ (fun hjoined => hjoined hnew)
    intro hreply
    have hokay : OkayResponse.toMessage {} = alreadyJoined := Outcome.returned.inj hreply
    exact error_ne_okay _ hokay.symm

end Views

/-- Whether a user is in a channel is seen alike in the list of channels, the
messages, the sending of a message, the details and the refusal of an invitation,
and no list repeats an entry. -/
theorem membership_views_agree {env : Env} {Admitted : Message → Prop} {w : World}
    (hw : Reachable env Admitted w) (turns : ℕ) {u : User} {c : Int32}
    {list read send details : Message} (h : Probes env w u c list read send details) :
    ((∃ res, OkayedWith ChannelListResponse.ofMessage env turns w list res ∧
        c ∈ res.data.map (·.id)) ↔ w.db.Member u.id c) ∧
      (Okayed env turns w read ↔ w.db.Member u.id c) ∧
      (Okayed env turns w send ↔ w.db.Member u.id c) ∧
      ((∃ res, OkayedWith ChannelDetailsResponse.ofMessage env turns w details res ∧
        u.id ∈ res.members) ↔ w.db.Member u.id c) ∧
      (∀ res, OkayedWith ChannelListResponse.ofMessage env turns w list res →
        (res.data.map (·.id)).Nodup) ∧
      (∀ res, OkayedWith ChannelDetailsResponse.ofMessage env turns w details res →
        res.members.Nodup) ∧
      ∀ owner v invite, Invites env w owner v c invite →
        ((serve env turns invite w).1 = .returned alreadyJoined ↔ w.db.Member v.id c) := by
  have hrel := hw.relational
  obtain ⟨_, hlist⟩ := h.list
  obtain ⟨_, hread, hchan⟩ := h.read
  obtain ⟨_, hsend, hchan'⟩ := h.send
  obtain ⟨_, hdetails, hchan''⟩ := h.details
  refine ⟨listed_iff hrel hlist c, ?_, ?_, ?_, fun _ => nodup_listed hrel hlist,
    fun _ => nodup_detailed hrel hdetails, fun _ _ _ => alreadyJoined_iff hrel⟩
  · rw [← hchan]
    exact okayed_read_iff hread
  · rw [← hchan']
    exact okayed_send_iff hsend
  · rw [← hchan'']
    exact detailed_iff hrel hdetails

theorem masterSession_reachable : Reachable twoDaysLater (fun _ => True) masterSession :=
  .serve .refl 1 trivial

theorem masterSession_accepted : Accepted twoDaysLater masterSession 7 master :=
  accepted_iff.mpr (by decide +kernel)

/-- The first user lists the main channel, reads and sends a message in it, and
asks for its details. -/
theorem masterSession_probes : Probes twoDaysLater masterSession master 1
    (ChannelListRequest.toMessage { token := 7 })
    (ChannelMsgRequest.toMessage { token := 7, chanId := 1 })
    (MessageSendRequest.toMessage { token := 7, chanId := 1, msgCnt := ascii "hi" })
    (ChannelDetailsRequest.toMessage { token := 7, chanId := 1 }) where
  list := ⟨_, ⟨rfl, _, rfl, masterSession_accepted⟩⟩
  read := ⟨_, ⟨rfl, _, rfl, masterSession_accepted⟩, rfl⟩
  send := ⟨_, ⟨rfl, _, rfl, masterSession_accepted⟩, rfl⟩
  details := ⟨_, ⟨rfl, _, rfl, masterSession_accepted⟩, rfl⟩

theorem masterSession_invites : Invites twoDaysLater masterSession master master 1
    (InviteUserRequest.toMessage { token := 7, uid := 1, chanId := 1 }) :=
  ⟨_, ⟨rfl, _, rfl, masterSession_accepted⟩, rfl, rfl, by decide +kernel, by decide +kernel⟩

theorem membership_views_agree_master :
    (∃ res, OkayedWith ChannelListResponse.ofMessage twoDaysLater 0 masterSession
        (ChannelListRequest.toMessage { token := 7 }) res ∧ 1 ∈ res.data.map (·.id)) ∧
      Okayed twoDaysLater 0 masterSession
        (ChannelMsgRequest.toMessage { token := 7, chanId := 1 }) ∧
      (serve twoDaysLater 0 (InviteUserRequest.toMessage { token := 7, uid := 1, chanId := 1 })
        masterSession).1 = .returned alreadyJoined := by
  have hmember : masterSession.db.Member master.id 1 := by decide +kernel
  obtain ⟨hlist, hread, -, -, -, -, hinvite⟩ :=
    membership_views_agree masterSession_reachable 0 masterSession_probes
  exact ⟨hlist.mpr hmember, hread.mpr hmember,
    (hinvite master master _ masterSession_invites).mpr hmember⟩

/-- The reply lists the channels that both users are in, each of them once. -/
def ListsMutual (env : Env) (turns : ℕ) (w : World) (m : Message) (a b : User) : Prop :=
  ∃ res, OkayedWith UserDetailsResponse.ofMessage env turns w m res ∧ res.mutualChannels.Nodup ∧
    ∀ c, c ∈ res.mutualChannels ↔ w.db.Member a.id c ∧ w.db.Member b.id c

/-- The details of a user list all channels of that user, so that they are right
exactly when the caller is in each of them. -/
theorem listsMutual_iff {env : Env} {Admitted : Message → Prop} {w : World}
    (hw : Reachable env Admitted w) (turns : ℕ) {a b : User} {m : Message}
    {r : UserDetailsRequest} (h : Asks env w a m (.userDetails r)) (hb : b ∈ w.db.users)
    (hid : r.uid = b.id) :
    ListsMutual env turns w m a b ↔ ∀ c, w.db.Member b.id c → w.db.Member a.id c := by
  have hrel := hw.relational
  have huser : w.db.getUser r.uid = some b :=
    (Table.lookup_eq_some hrel.userIds).mpr ⟨hb, hid.symm⟩
  obtain ⟨o, w', hhandled, hserve⟩ := h.served turns
  obtain ⟨s, hs, rfl⟩ | ⟨what, hdenies, rfl⟩ := h.query trivial hhandled
  · cases hs with
    | userDetails hv =>
      rw [huser] at hv
      cases hv
      simp only [ListsMutual,
        okayedWith_of_returned hserve fun _ => UserDetailsResponse.ofMessage_toMessage,
        exists_eq_left, Database.mem_mutualChannels, hid, and_self]
      have hnodup := Database.nodup_mutualChannels hrel.memberKeys b.id b.id
      constructor
      · rintro ⟨-, hboth⟩ c hc
        exact ((hboth c).mp hc).1
      · intro hall
        exact ⟨hnodup, fun c => ⟨fun hc => ⟨hall c hc, hc⟩, And.right⟩⟩
  · cases hdenies with
    | userDetails hnone =>
      rw [huser] at hnone
      cases hnone

def guest : User := { id := 2, name := ascii "guest", pass := ascii "pass" }

/-- The server after a second user has been created and has logged in. -/
def guestSession : World :=
  [NewUserRequest.toMessage { name := guest.name, pass := guest.pass },
    LoginRequest.toMessage { user := guest.name, pass := guest.pass }].foldl
      (fun w m => (serve twoDaysLater 1 m w).2) {}

theorem guestSession_reachable : Reachable twoDaysLater (fun _ => True) guestSession :=
  .serve (.serve .refl 1 trivial) 1 trivial

/-- The second user asks for the details of the first. -/
def masterDetails : Message := UserDetailsRequest.toMessage { token := 7, uid := 1 }

theorem masterDetails_asks :
    Asks twoDaysLater guestSession guest masterDetails (.userDetails { token := 7, uid := 1 }) :=
  ⟨rfl, _, rfl, accepted_iff.mpr (by decide +kernel)⟩

/-- A user who is in no channel is told that of another one. -/
theorem masterDetails_not_mutual :
    Reachable twoDaysLater (fun _ => True) guestSession ∧
      Asks twoDaysLater guestSession guest masterDetails (.userDetails { token := 7, uid := 1 }) ∧
      (∀ c, ¬ guestSession.db.Member guest.id c) ∧
      OkayedWith UserDetailsResponse.ofMessage twoDaysLater 0 guestSession masterDetails
        { id := 1, name := ascii "master", mutualChannels := [1] } ∧
      ¬ ListsMutual twoDaysLater 0 guestSession masterDetails guest master := by
  have hreply : ∃ reply, (serve twoDaysLater 0 masterDetails guestSession).1 = .returned reply ∧
      reply.cmd = ascii ResponseCommands.okay ∧ UserDetailsResponse.ofMessage reply =
        .ok { id := 1, name := ascii "master", mutualChannels := [1] } := by
    refine ⟨_, rfl, ?_⟩
    decide +kernel
  have hnone : ∀ c, ¬ guestSession.db.Member guest.id c := by
    intro c hc
    have huser : ∀ m ∈ guestSession.db.channelMembers, m.user ≠ guest.id := by decide +kernel
    exact huser _ hc rfl
  refine ⟨guestSession_reachable, masterDetails_asks, hnone, hreply, ?_⟩
  rintro ⟨res, ⟨reply, hserve, -, hres⟩, -, hboth⟩
  obtain ⟨reply', hserve', -, hres'⟩ := hreply
  rw [hserve'] at hserve
  cases hserve
  rw [hres'] at hres
  cases hres
  exact hnone 1 ((hboth 1).mp List.mem_cons_self).1

theorem listsMutual_iff_guest :
    ListsMutual twoDaysLater 0 guestSession masterDetails guest master ↔
      ∀ c, guestSession.db.Member master.id c → guestSession.db.Member guest.id c :=
  listsMutual_iff guestSession_reachable 0 masterDetails_asks (by decide +kernel) rfl

end Dotchat
