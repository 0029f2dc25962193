import Dotchat.Sessions

/-!
Who may change what. For each table, one message only appends rows, changes a
password or drops and replaces sessions, and each such change is covered by the
token or the password that the message carries. A reply that is an error means
that nothing was changed.
-/
namespace Dotchat

open Db

/-- `check_session_key` maps a token of the message to `u`. -/
def TokenOf (env : Env) (w : World) (m : Message) (u : User) : Prop :=
  ∃ req token, Request.Parses m req ∧ req.token = some token ∧ Accepted env w token u

/-- The changes from the world before a message to the database after it, table
by table. -/
structure Authorised (env : Env) (w : World) (m : Message) (db : Database) : Prop where
  /-- Messages are only added, by a member of the channel who is the sender. -/
  messages : ∃ new, db.messages = w.db.messages ++ new ∧ ∀ row ∈ new, ∃ u, TokenOf env w m u ∧
    row.sender = u.id ∧ { user := u.id, channel := row.channel } ∈ w.db.channelMembers
  /-- Members are only added: the creator of a new channel, or an existing user by
  the owner of an existing channel. -/
  channelMembers : ∃ new, db.channelMembers = w.db.channelMembers ++ new ∧
    ∀ row ∈ new, ∃ u, TokenOf env w m u ∧
      ((row.user = u.id ∧ ∃ c ∈ db.channels, c.id = row.channel ∧ c.ownerId = u.id ∧
          ∀ c' ∈ w.db.channels, c'.id ≠ row.channel) ∨
        ((∃ c ∈ w.db.channels, c.id = row.channel ∧ c.ownerId = u.id) ∧
          ∃ v ∈ w.db.users, v.id = row.user))
  /-- Channels are only added. -/
  channels : ∃ new, db.channels = w.db.channels ++ new
  /-- Users are only added, under a name that no user has, and a row that changes
  is that of the token's user and changes its password. -/
  users : ∃ (change : User → User) (new : List User), db.users = w.db.users.map change ++ new ∧
    (∀ u ∈ w.db.users, change u = u ∨
      TokenOf env w m u ∧ ∃ pass, change u = { u with pass := pass }) ∧
    (∀ u ∈ new, ∀ other ∈ w.db.users, other.name ≠ u.name) ∧ (db.users.map (·.name)).Nodup
  /-- A session that goes was one of the token's user, or its key was rejected and
  is that of a new session. -/
  removed : ∀ s ∈ w.db.sessionKeys, s ∉ db.sessionKeys →
    (∃ u, TokenOf env w m u ∧ s.user = u.id) ∨
      (Rejected env w s.key ∧ ∃ s' ∈ db.sessionKeys, s'.key = s.key)
  /-- A session that comes is that of the user whose name and password the message
  carries, and replaces none that was accepted. -/
  added : ∀ s ∈ db.sessionKeys, s ∉ w.db.sessionKeys → ∃ r u, (Request.login r).Parses m ∧
    u ∈ w.db.users ∧ u.name = r.user ∧ u.pass = r.pass ∧ s.user = u.id ∧
    ¬ ∃ v, Accepted env w s.key v

section Authorised

variable {env : Env} {w : World} {m : Message}

theorem Authorised.unchanged (env : Env) (m : Message) (hc : Consistent w.db) :
    Authorised env w m w.db where
  messages := ⟨[], by simp⟩
  channelMembers := ⟨[], by simp⟩
  channels := ⟨[], by simp⟩
  users := ⟨id, [], by simp, fun u _ => .inl rfl, by simp, hc.names⟩
  removed s hs hno := absurd hs hno
  added s hs hno := absurd hs hno

theorem tokenOf {req : Request} {token : Int32} {u : User} (hparse : req.Parses m)
    (ht : req.token = some token) (h : Accepted env w token u) : TokenOf env w m u :=
  ⟨req, token, hparse, ht, h⟩

theorem authorised_written {req : Request} {o : Outcome Exc Response} {db : Database}
    (hc : Consistent w.db) (htime : Timeless w.db) (hparse : req.Parses m)
    (h : Written env w req o db) : Authorised env w m db := by
  have hsame := Authorised.unchanged env m hc
  have hnames := (consistent_written hc h).names
  cases h with
  | nothing => exact hsame
  | message hu hmem =>
    rename_i r u
    refine { hsame with messages := ⟨_, rfl, ?_⟩ }
    simp only [List.mem_singleton, forall_eq]
    exact ⟨u, tokenOf hparse rfl hu, rfl, w.db.getChannelMember_isSome.mp hmem⟩
  | member hu hch howner hv hnew =>
    rename_i r u v c
    obtain ⟨hc', hcid⟩ := Table.mem_of_lookup hch
    obtain ⟨hv', hvid⟩ := Table.mem_of_lookup hv
    refine { hsame with channelMembers := ⟨[{ user := v.id, channel := c.id }], ?_, ?_⟩ }
    · apply Table.replace_of_fresh
      rw [← hcid, ← hvid] at hnew
      exact w.db.membershipsOf_eq_nil.mp hnew
    · simp only [List.mem_singleton, forall_eq]
      exact ⟨u, tokenOf hparse rfl hu, .inr ⟨⟨c, hc', rfl, howner⟩, v, hv', rfl⟩⟩
  | channel hu hfree =>
    rename_i r u
    have hnew : ∀ c' ∈ w.db.channels, c'.id ≠ w.db.nextChannelId :=
      fun c' hc' hid => hfree ⟨c', hc', .inl hid⟩
    refine { hsame with
      channels := ⟨_, rfl⟩
      channelMembers := ⟨[{ user := u.id, channel := w.db.nextChannelId }], ?_, ?_⟩ }
    · apply Table.replace_of_fresh
      intro row hrow hkey
      obtain ⟨c', hc', hid⟩ := hc.memberChannel row hrow
      exact hnew c' hc' (hid.trans (congrArg Prod.snd hkey))
    · simp only [List.mem_singleton, forall_eq]
      exact ⟨u, tokenOf hparse rfl hu, .inl ⟨rfl, _, List.mem_append_right _ List.mem_cons_self,
        rfl, rfl, hnew⟩⟩
  | password hu =>
    rename_i r u
    refine { hsame with users := ⟨fun v => if v.id = u.id then { u with pass := r.newPass } else v,
      [], by simp [Table.update], ?_, by simp, hnames⟩ }
    intro v hv
    by_cases hid : v.id = u.id
    · obtain rfl := Table.eq_of_key hc.users hv hu.mem hid
      exact .inr ⟨tokenOf hparse rfl hu, r.newPass, if_pos rfl⟩
    · exact .inl (if_neg hid)
  | user hfree =>
    refine { hsame with users := ⟨id, _, by rw [List.map_id], fun u _ => .inl rfl, ?_, hnames⟩ }
    simp only [List.mem_singleton, forall_eq]
    exact fun other hother hname => hfree ⟨other, hother, .inr hname⟩
  | noSessions hu =>
    rename_i r u
    refine { hsame with removed := ?_, added := ?_ }
    · intro s hs hgone
      refine .inl ⟨u, tokenOf hparse rfl hu, ?_⟩
      by_contra hne
      exact hgone (List.mem_filter.mpr ⟨hs, by simpa using hne⟩)
    · exact fun s hs hno => absurd (List.mem_filter.mp hs).1 hno
  | session hnamed hpass hv hkey hv' =>
    rename_i r u others v v'
    have hu : u ∈ w.db.usersNamed r.user := hnamed ▸ List.mem_cons_self
    obtain ⟨huser, hname⟩ := List.mem_filter.mp hu
    have hrejected := (htime.rejected_iff hv).mp hkey
    refine { hsame with removed := ?_, added := ?_ }
    · intro s hs hgone
      have hsame : s.key = env.rand w.draws := by
        by_contra hne
        exact hgone (Table.mem_replace.mpr (.inr ⟨hs, hne⟩))
      exact .inr ⟨hsame ▸ hrejected, _, Table.mem_replace.mpr (.inl rfl), hsame.symm⟩
    · intro s hs hno
      rcases Table.mem_replace.mp hs with rfl | ⟨hs, -⟩
      · exact ⟨r, u, hparse, huser, by simpa using hname, hpass, rfl,
          fun haccepted => haccepted.choose_spec.not_rejected hrejected⟩
      · exact absurd hs hno

/-- Only a request that is answered ok writes anything. -/
theorem Written.returned {req : Request} {o : Outcome Exc Response} {db : Database}
    (h : Written env w req o db) : db = w.db ∨ ∃ s, o = .returned s := by
  cases h with
  | nothing => exact .inl rfl
  | session _ _ _ _ _ | noSessions _ | message _ _ | channel _ _ | member _ _ _ _ _ | password _
  | user _ => exact .inr ⟨_, rfl⟩

end Authorised

/-- In a reachable state every change that a message makes is authorised, and an
error reply means that there is none. -/
theorem serve_authorised {env : Env} {w : World} (hw : Reachable env (fun _ => True) w)
    (turns : ℕ) (m : Message) :
    Authorised env w m (serve env turns m w).2.db ∧
      ∀ reply, (serve env turns m w).1 = .returned reply →
        reply.cmd = ascii ResponseCommands.error → (serve env turns m w).2.db = w.db := by
  rcases serve_written env turns m w with hsame | ⟨req, o, hparse, hreply, hwritten⟩
  · rw [hsame]
    exact ⟨.unchanged env m hw.consistent, fun _ _ _ => rfl⟩
  · refine ⟨authorised_written hw.consistent hw.timeless hparse hwritten, ?_⟩
    intro reply hreturned hcmd
    rcases hwritten.returned with hsame | ⟨s, rfl⟩
    · exact hsame
    · obtain ⟨mods, hmods⟩ := s.toMessage_eq_ok
      simp only [hreply, replyOf, hmods, Outcome.returned.injEq] at hreturned
      subst hreturned
      have hok : (OkayResponse.okayWith mods).cmd = ascii ResponseCommands.okay := rfl
      rw [hok] at hcmd
      exact absurd hcmd (by decide)

theorem serve_authorised_masterLogin :
    Authorised twoDaysLater {} masterLogin (serve twoDaysLater 1 masterLogin {}).2.db :=
  (serve_authorised .refl 1 masterLogin).1

end Dotchat
