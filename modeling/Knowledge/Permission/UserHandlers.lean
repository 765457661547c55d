import Knowledge.Permission.GroupHandlers

/-!
The handlers of users. A change of the active flag and a deletion work on the tuples of
one user in every group; a new user and a change of anything else work on none.
-/

set_option autoImplicit false

namespace Knowledge.Permission
open Knowledge.Atomic
open Knowledge.Sync (Uuid)
open Request ScopeSafe

section

variable {parse : String → Option Uuid} {plain : String → Prop}

def Directory.flag (dir : Directory) (uid : String) : Option Bool :=
  (dir.users.lookup uid).map User.active

theorem inactive_iff_flag {dir : Directory} {user : Uuid} :
    dir.Inactive parse user ↔ ∃ uid, dir.flag uid = some false ∧ parse uid = some user := by
  simp only [Directory.flag, Option.map_eq_some_iff]
  constructor
  · rintro ⟨uid, u, hl, hp, ha⟩
    exact ⟨uid, ⟨u, hl, ha⟩, hp⟩
  · rintro ⟨uid, ⟨u, hl, ha⟩, hp⟩
    exact ⟨uid, u, hl, hp, ha⟩

theorem flag_eq_none_iff {dir : Directory} {uid : String} :
    dir.flag uid = none ↔ dir.users.lookup uid = none := by
  simp [Directory.flag]

theorem userKey_iff_flag {dir : Directory} {user : Uuid} :
    (∃ uid u, dir.users.lookup uid = some u ∧ parse uid = some user) ↔
      ∃ uid, dir.flag uid ≠ none ∧ parse uid = some user := by
  constructor
  · rintro ⟨uid, u, hl, hp⟩
    refine ⟨uid, ?_, hp⟩
    rw [ne_eq, flag_eq_none_iff, hl]
    simp
  · rintro ⟨uid, hne, hp⟩
    rw [ne_eq, flag_eq_none_iff] at hne
    obtain ⟨u, hl⟩ := Option.ne_none_iff_exists'.mp hne
    exact ⟨uid, u, hl, hp⟩

theorem userActive_eq_flag (dir : Directory) (v : String) :
    dir.userActive v = (dir.flag v).getD true := by
  rw [Directory.userActive, Directory.flag]
  cases dir.users.lookup v <;> rfl

theorem hasMember_congr {dir dir' : Directory} {group user : Uuid}
    (h : ∀ gid, dir.names parse gid user = dir'.names parse gid user) :
    dir.HasMember parse group user ↔ dir'.HasMember parse group user := by
  simp only [hasMember_iff_names, h]

theorem binds_congr {dir dir' : Directory} {tenant group : Uuid} {r : Relation}
    (h : ∀ gid, (dir.groups.lookup gid).map Group.displayName =
      (dir'.groups.lookup gid).map Group.displayName) :
    dir.Binds parse tenant r group ↔ dir'.Binds parse tenant r group := by
  have hname : ∀ d : Directory, d.Binds parse tenant r group ↔ ∃ gid name,
      (d.groups.lookup gid).map Group.displayName = some name ∧ parse gid = some group ∧
        Encodes parse name tenant r := by
    intro d
    simp only [Directory.Binds, Option.map_eq_some_iff]
    constructor
    · rintro ⟨gid, g, hl, hp, he⟩
      exact ⟨gid, g.displayName, ⟨g, hl, rfl⟩, hp, he⟩
    · rintro ⟨gid, name, ⟨g, hl, rfl⟩, hp, he⟩
      exact ⟨gid, g, hl, hp, he⟩
  simp only [hname, h]

theorem obs_of_activity (s t : Service)
    (hactive : ∀ v, s.dir.flag v = some false ↔ t.dir.flag v = some false)
    (hgroups : t.dir.groups = s.dir.groups) (hperms : t.perms = s.perms) {f : Fact}
    (huser : ∀ uid, f = .user uid → s.dir.flag uid = t.dir.flag uid)
    (hkey : ∀ who, f = .userKey who → ∀ uid, parse uid = some who →
      s.dir.flag uid = t.dir.flag uid) :
    f.obs parse s = f.obs parse t := by
  have hinactive : ∀ who, s.dir.Inactive parse who ↔ t.dir.Inactive parse who := by
    intro who
    simp only [inactive_iff_flag, hactive]
  have hnames : ∀ gid who, s.dir.names parse gid who = t.dir.names parse gid who := by
    intro gid who
    rw [Directory.names, Directory.names, hgroups]
  cases f with
  | active v =>
    change s.dir.userActive v = t.dir.userActive v
    have hget : ∀ o : Option Bool, o.getD true = false ↔ o = some false := by
      intro o
      cases o <;> simp
    rw [userActive_eq_flag, userActive_eq_flag, Bool.eq_iff_iff, ← not_iff_not]
    simp only [Bool.not_eq_true, hget, hactive]
  | inactive who => exact propext (hinactive who)
  | user uid => exact huser uid rfl
  | userKey who =>
    have hiff : (∃ uid, s.dir.flag uid ≠ none ∧ parse uid = some who) ↔
        ∃ uid, t.dir.flag uid ≠ none ∧ parse uid = some who := by
      refine exists_congr fun uid => and_congr_left fun hp => ?_
      rw [hkey who rfl uid hp]
    exact propext (userKey_iff_flag.trans (hiff.trans userKey_iff_flag.symm))
  | group g =>
    change s.dir.groups.lookup g = t.dir.groups.lookup g
    rw [hgroups]
  | groupKey which =>
    change (∃ gid g, s.dir.groups.lookup gid = some g ∧ parse gid = some which) =
      ∃ gid g, t.dir.groups.lookup gid = some g ∧ parse gid = some which
    rw [hgroups]
  | names g who => exact hnames g who
  | tuple x =>
    change (x ∈ s.perms.tuples) = (x ∈ t.perms.tuples)
    rw [hperms]
  | wanted x =>
    refine propext (wants_congr ?_ ?_)
    · rintro group user rfl
      exact ⟨hasMember_congr fun gid => hnames gid user, hinactive user⟩
    · rintro tenant role group rfl
      refine binds_congr fun gid => ?_
      rw [hgroups]

/-- Only one user differs, and in the groups only where they list that user. -/
structure Directory.TouchesUser (parse : String → Option Uuid) (uid : String) (user : Uuid)
    (dir dir' : Directory) : Prop where
  flag : ∀ w, w ≠ uid → dir.flag w = dir'.flag w
  group : ∀ gid, dir.inGroup uid gid = false → dir.groups.lookup gid = dir'.groups.lookup gid
  displayName : ∀ gid, (dir.groups.lookup gid).map Group.displayName =
    (dir'.groups.lookup gid).map Group.displayName
  names : ∀ gid who, who ≠ user → dir.names parse gid who = dir'.names parse gid who

theorem guar_user {uid : String} {user : Uuid} {gids : List String} {s t : Service}
    (hu : parse uid = some user) (h : Directory.TouchesUser parse uid user s.dir t.dir)
    (hgids : ∀ gid, s.dir.inGroup uid gid = true → gid ∈ gids) (hperms : t.perms = s.perms)
    (hkeys : s.dir.Keys parse plain → t.dir.Keys parse plain) :
    (scimWorld parse plain).guar ((Scope.user uid gids).footprint parse) s t := by
  refine ⟨hkeys, fun f hf => ?_⟩
  have hinactive : ∀ who, who ≠ user → (s.dir.Inactive parse who ↔ t.dir.Inactive parse who) := by
    intro who hne
    rw [inactive_iff_flag, inactive_iff_flag]
    refine exists_congr fun w => and_congr_left fun hp => ?_
    rw [h.flag w (by rintro rfl; exact hne (Option.some.inj (hp.symm.trans hu)))]
  cases f with
  | active v =>
    change s.dir.userActive v = t.dir.userActive v
    rw [userActive_eq_flag, userActive_eq_flag, h.flag v hf]
  | inactive who => exact propext (hinactive who (fun heq => hf (heq ▸ hu)))
  | user w => exact h.flag w hf
  | userKey who =>
    have hiff : (∃ w, s.dir.flag w ≠ none ∧ parse w = some who) ↔
        ∃ w, t.dir.flag w ≠ none ∧ parse w = some who := by
      refine exists_congr fun w => and_congr_left fun hp => ?_
      rw [h.flag w (by rintro rfl; exact hf hp)]
    exact propext (userKey_iff_flag.trans (hiff.trans userKey_iff_flag.symm))
  | group g =>
    refine h.group g ?_
    by_contra hin
    exact hf (hgids g (by simpa using hin))
  | groupKey which =>
    refine propext (exists_congr fun gid => ?_)
    have hsome : ∀ d : Directory, (∃ g, d.groups.lookup gid = some g ∧ parse gid = some which) ↔
        (∃ name, (d.groups.lookup gid).map Group.displayName = some name) ∧
          parse gid = some which := by
      intro d
      simp only [Option.map_eq_some_iff]
      constructor
      · rintro ⟨g, hl, hp⟩
        exact ⟨⟨_, g, hl, rfl⟩, hp⟩
      · rintro ⟨⟨_, g, hl, -⟩, hp⟩
        exact ⟨g, hl, hp⟩
    rw [hsome, hsome, h.displayName]
  | names g who => exact h.names g who (fun heq => hf (heq ▸ hu))
  | tuple x =>
    change (x ∈ s.perms.tuples) = (x ∈ t.perms.tuples)
    rw [hperms]
  | wanted x =>
    refine propext (wants_congr ?_ ?_)
    · rintro group who rfl
      have hne : who ≠ user := fun heq => hf ⟨group, who, heq ▸ hu, rfl⟩
      exact ⟨hasMember_congr fun gid => h.names gid who hne, hinactive who hne⟩
    · rintro tenant role group rfl
      exact binds_congr h.displayName

theorem Directory.Keys.setUser {dir : Directory} (h : dir.Keys parse plain) {uid : String}
    {u : User} (hplain : plain uid) (hu : ∃ user, parse uid = some user)
    (honly : ∀ w u', dir.users.lookup w = some u' → parse w = parse uid → w = uid) :
    (dir.setUser uid u).Keys parse plain := by
  have hcases : ∀ w u', (dir.setUser uid u).users.lookup w = some u' →
      w = uid ∨ dir.users.lookup w = some u' := by
    intro w u' hl
    by_cases heq : w = uid
    · exact .inl heq
    · simp only [Directory.setUser, AList.lookup_insert_ne heq] at hl
      exact .inr hl
  refine ⟨?_, ?_, h.group, h.groupUnique, h.member, h.tenant⟩
  · intro w u' hl
    obtain rfl | hl := hcases w u' hl
    · exact ⟨hplain, hu⟩
    · exact h.user w u' hl
  · intro a b u' u'' ha hb hp
    obtain rfl | ha' := hcases a u' ha
    · obtain rfl | hb' := hcases b u'' hb
      · rfl
      · exact (honly b u'' hb' hp.symm).symm
    · obtain rfl | hb' := hcases b u'' hb
      · exact honly a u' ha' hp
      · exact h.userUnique a b u' u'' ha' hb' hp

theorem flag_setUser (dir : Directory) (uid : String) (u : User) (w : String) :
    (dir.setUser uid u).flag w = if w = uid then some u.active else dir.flag w := by
  by_cases h : w = uid
  · subst h
    simp [Directory.flag, Directory.setUser]
  · simp [Directory.flag, Directory.setUser, h]

theorem lookup_foldl_insert {F : String → Option Group} (l : List Group)
    (groups : AList (fun _ : String => Group)) (hF : ∀ g ∈ l, F g.id = some g) (gid : String) :
    (l.foldl (fun groups g => groups.insert g.id g) groups).lookup gid =
      if gid ∈ l.map Group.id then F gid else groups.lookup gid := by
  induction l generalizing groups with
  | nil => simp
  | cons g l ih =>
    rw [List.foldl_cons, ih _ (fun g' hg' => hF g' (List.mem_cons_of_mem _ hg'))]
    by_cases hmem : gid ∈ l.map Group.id
    · simp [hmem]
    · by_cases heq : gid = g.id
      · subst heq
        rw [if_neg hmem, AList.lookup_insert, if_pos (by simp), hF g List.mem_cons_self]
      · rw [if_neg hmem, AList.lookup_insert_ne heq, if_neg]
        simp only [List.map_cons, List.mem_cons, not_or]
        exact ⟨heq, hmem⟩

def Group.strip (g : Group) (uid : String) (now : Int) : Group :=
  if g.members.any (fun m => m.value = uid) then
    { g with members := g.members.filter (fun m => m.value ≠ uid), lastModified := now }
  else g

theorem mem_stripped_iff {dir : Directory} {uid : String} {now : Int} {g' : Group} :
    g' ∈ dir.stripped uid now ↔ ∃ gid g, dir.groups.lookup gid = some g ∧
      g.members.any (fun m => m.value = uid) = true ∧ g' = g.strip uid now := by
  simp only [Directory.stripped, List.mem_filterMap, removeMemberValue]
  constructor
  · rintro ⟨⟨gid, g⟩, he, hsome⟩
    have hl : dir.groups.lookup gid = some g := AList.mem_lookup_iff.mpr he
    split at hsome
    · rename_i members hr
      obtain ⟨rfl, hany⟩ := Prod.mk.inj hr
      refine ⟨gid, g, hl, hany, ?_⟩
      rw [Group.strip, if_pos hany]
      exact (Option.some.inj hsome).symm
    · cases hsome
  · rintro ⟨gid, g, hl, hany, rfl⟩
    refine ⟨⟨gid, g⟩, AList.mem_lookup_iff.mp hl, ?_⟩
    simp only [hany, Group.strip, if_true]

theorem lookup_deleteUser {dir : Directory} (h : dir.Keys parse plain) (uid : String) (now : Int)
    (gid : String) :
    (dir.deleteUser uid now).groups.lookup gid =
      (dir.groups.lookup gid).map (fun g => g.strip uid now) := by
  have hstrip : ∀ g : Group, (g.strip uid now).id = g.id := by
    intro g
    rw [Group.strip]
    split <;> rfl
  have hF : ∀ g' ∈ dir.stripped uid now,
      (dir.groups.lookup g'.id).map (fun g => g.strip uid now) = some g' := by
    intro g' hg'
    obtain ⟨gid', g, hl, -, rfl⟩ := mem_stripped_iff.mp hg'
    rw [hstrip, (h.group gid' g hl).1, hl]
    rfl
  rw [Directory.deleteUser, lookup_foldl_insert (F := fun gid =>
    (dir.groups.lookup gid).map (fun g => g.strip uid now)) _ _ hF]
  split
  · rfl
  · rename_i hmem
    cases hl : dir.groups.lookup gid with
    | none => rfl
    | some g =>
      have hany : ¬g.members.any (fun m => m.value = uid) = true := by
        intro hany
        refine hmem (List.mem_map.mpr ⟨g.strip uid now, ?_, ?_⟩)
        · exact mem_stripped_iff.mpr ⟨gid, g, hl, hany, rfl⟩
        · rw [hstrip, (h.group gid g hl).1]
      rw [Option.map_some, Group.strip, if_neg hany]

theorem strip_members {g : Group} {uid : String} {now : Int} {m : GroupMember} :
    m ∈ (g.strip uid now).members ↔ m ∈ g.members ∧ m.value ≠ uid := by
  rw [Group.strip]
  split
  · simp
  · rename_i hany
    constructor
    · intro hm
      refine ⟨hm, fun heq => hany ?_⟩
      exact List.any_eq_true.mpr ⟨m, hm, by simpa using heq⟩
    · exact fun hm => hm.1

theorem strip_displayName (g : Group) (uid : String) (now : Int) :
    (g.strip uid now).displayName = g.displayName := by
  rw [Group.strip]
  split <;> rfl

theorem Directory.Keys.deleteUser {dir : Directory} (h : dir.Keys parse plain) (uid : String)
    (now : Int) : (dir.deleteUser uid now).Keys parse plain := by
  have husers : ∀ w u, (dir.deleteUser uid now).users.lookup w = some u →
      dir.users.lookup w = some u := by
    intro w u hl
    by_cases heq : w = uid
    · subst heq
      simp [Directory.deleteUser] at hl
    · simpa [Directory.deleteUser, AList.lookup_erase_ne heq] using hl
  have hgroups : ∀ gid g', (dir.deleteUser uid now).groups.lookup gid = some g' →
      ∃ g, dir.groups.lookup gid = some g ∧ g' = g.strip uid now := by
    intro gid g' hl
    rw [lookup_deleteUser h, Option.map_eq_some_iff] at hl
    obtain ⟨g, hl, rfl⟩ := hl
    exact ⟨g, hl, rfl⟩
  refine ⟨fun w u hl => h.user w u (husers w u hl), fun a b u u' ha hb =>
    h.userUnique a b u u' (husers a u ha) (husers b u' hb), ?_, ?_, ?_, ?_⟩
  · intro gid g' hl
    obtain ⟨g, hg, rfl⟩ := hgroups gid g' hl
    refine ⟨?_, (h.group gid g hg).2⟩
    rw [Group.strip]
    split
    · exact (h.group gid g hg).1
    · exact (h.group gid g hg).1
  · intro a b g' g'' ha hb
    obtain ⟨g, hg, rfl⟩ := hgroups a g' ha
    obtain ⟨g₂, hg₂, rfl⟩ := hgroups b g'' hb
    exact h.groupUnique a b g g₂ hg hg₂
  · intro gid g' hl m hm
    obtain ⟨g, hg, rfl⟩ := hgroups gid g' hl
    exact h.member gid g hg m (strip_members.mp hm).1
  · intro gid g' p hl hp
    obtain ⟨g, hg, rfl⟩ := hgroups gid g' hl
    rw [strip_displayName] at hp
    exact h.tenant gid g p hg hp

theorem names_deleteUser {dir : Directory} (h : dir.Keys parse plain) {uid : String} {user : Uuid}
    (hu : parse uid = some user) (now : Int) (gid : String) (who : Uuid) :
    (dir.deleteUser uid now).names parse gid who =
      if who = user then (dir.names parse gid who).filter (· ≠ uid)
      else dir.names parse gid who := by
  rw [Directory.names, Directory.names, lookup_deleteUser h]
  cases hl : dir.groups.lookup gid with
  | none => simp
  | some g =>
    have hmembers : ((g.strip uid now).members.map GroupMember.value) =
        (g.members.map GroupMember.value).filter (· ≠ uid) := by
      rw [Group.strip]
      split
      · rw [List.filter_map]
        rfl
      · rename_i hany
        rw [List.filter_eq_self.mpr]
        intro v hv
        obtain ⟨m, hm, rfl⟩ := List.mem_map.mp hv
        simp only [decide_eq_true_eq]
        intro heq
        exact hany (List.any_eq_true.mpr ⟨m, hm, by simpa using heq⟩)
    simp only [Option.map_some, hmembers, List.filter_filter]
    split
    · exact List.filter_congr fun v _ => Bool.and_comm _ _
    · rename_i hne
      refine List.filter_congr fun v _ => ?_
      by_cases hv : parse v = some who
      · have : v ≠ uid := by
          rintro rfl
          exact hne (Option.some.inj (hv.symm.trans hu))
        simp [hv, this]
      · simp [hv]

theorem touchesUser_deleteUser {dir : Directory} (h : dir.Keys parse plain) {uid : String}
    {user : Uuid} (hu : parse uid = some user) (now : Int) :
    Directory.TouchesUser parse uid user dir (dir.deleteUser uid now) := by
  refine ⟨fun w hne => ?_, fun gid hin => ?_, fun gid => ?_, fun gid who hne => ?_⟩
  · rw [Directory.flag, Directory.flag, Directory.deleteUser, AList.lookup_erase_ne hne]
  · rw [lookup_deleteUser h]
    cases hl : dir.groups.lookup gid with
    | none => rfl
    | some g =>
      have hany : ¬g.members.any (fun m => m.value = uid) = true := by
        simpa [Directory.inGroup, hl] using hin
      rw [Option.map_some, Group.strip, if_neg hany]
  · rw [lookup_deleteUser h, Option.map_map]
    congr 1
    funext g
    exact (strip_displayName g uid now).symm
  · rw [names_deleteUser h hu, if_neg hne]

end

open Directory

section

variable {env : Env} {plain : String → Prop}

theorem settled_of_none {scope : Scope} (h : ∀ t, ¬scope.Controls env.parse t) (s : Service) :
    Settled env scope s :=
  fun t ht => absurd ht (h t)

theorem safe_createUser {s : Service} (hkeys : s.dir.Keys env.parse plain) (id : String)
    (now : Int) (input : Option UserInput)
    (hplain : (createUser id now input).Plain env.parse plain)
    (hfresh : (createUser id now input).Fresh env s.dir) :
    ScopeSafe env plain (.newUser id) (scimCreateUser env id now input)
      (fun _ t => Settled env (.newUser id) t) s := by
  have hsettled : ∀ t, Settled env (.newUser id) t := settled_of_none (fun _ h => h)
  cases input with
  | none => exact done (hsettled s)
  | some input =>
    obtain ⟨user, -, hu, hnone⟩ := hfresh
    rw [scimCreateUser]
    split
    · exact done (hsettled s)
    · refine fun t ht hok => ?_
      have htrack : Track env plain (.newUser id) s [] t := (Track.init hkeys).stable ht
      -- the UUID is still not taken when the user is added
      have hfree : ∀ w u, t.dir.users.lookup w = some u → env.parse w ≠ some user := by
        intro w u hl hp
        have hkey : (∃ w u, s.dir.users.lookup w = some u ∧ env.parse w = some user) =
            ∃ w u, t.dir.users.lookup w = some u ∧ env.parse w = some user :=
          htrack.same (.userKey user) hu (by simp)
        obtain ⟨w', u', hl', hp'⟩ := (iff_of_eq hkey).mpr ⟨w, u, hl, hp⟩
        exact hnone w' u' hl' hp'
      refine ⟨?_, fun _ _ => hsettled _⟩
      simp only at hok ⊢
      split at hok
      · rename_i htaken
        rw [if_pos htaken]
        exact World.guar_refl _ _
      · rename_i htaken
        rw [if_neg htaken]
        have hsave : (t.save env (·.setUser id
          ⟨id, input.userName, true, input.emails, now, now⟩)).1.failures = 0 := hok
        rw [save_ok hsave]
        refine ⟨fun hk => hk.setUser hplain ⟨user, hu⟩ ?_, fun f hf => ?_⟩
        · exact fun w u' hl hp => absurd (hp.trans hu) (hfree w u' hl)
        · have hflag := flag_setUser t.dir id ⟨id, input.userName, true, input.emails, now, now⟩
          have habsent : t.dir.flag id = none := by
            rw [flag_eq_none_iff]
            cases hl : t.dir.users.lookup id with
            | none => rfl
            | some u => exact absurd hu (hfree id u hl)
          refine obs_of_activity t ⟨t.dir.setUser id ⟨id, input.userName, true, input.emails, now,
            now⟩, t.perms, t.calls+1, t.failures⟩ (fun v => ?_) rfl rfl ?_ ?_
          · rw [hflag]
            split
            · rename_i heq
              simp [heq, habsent]
            · rfl
          · rintro w rfl
            have hne : ¬w = id := hf
            rw [hflag, if_neg hne]
          · rintro who rfl w hp
            rw [hflag, if_neg]
            rintro rfl
            exact hf hp

theorem Track.finishRename {s₀ s : Service} {id : String} {u next : User}
    (h : Track env plain (.rename id) s₀ [] s) (hu : s₀.dir.users.lookup id = some u)
    (hactive : next.active = u.active) :
    ScopeSafe env plain (.rename id) (finishUser env id next [])
      (fun _ t => Settled env (.rename id) t) s := by
  have hsettled : ∀ t, Settled env (.rename id) t := settled_of_none (fun _ h => h)
  refine (commit (P := (· = .saved)) h fun t ht hok => ?_).bind ?_
  · have hflag : t.dir.flag id = some u.active := by
      have hsame : s₀.dir.flag id = t.dir.flag id := ht.same (.user id) rfl (by simp)
      rw [← hsame, flag, hu]
      rfl
    have hpresent : ¬t.dir.users.lookup id = none := by
      rw [← flag_eq_none_iff, hflag]
      simp
    obtain ⟨u', hu'⟩ := Option.ne_none_iff_exists'.mp hpresent
    rw [if_neg hpresent] at hok ⊢
    have hsave : (t.save env (·.setUser id next)).1.failures = 0 := hok
    rw [save_ok hsave]
    refine ⟨⟨fun hk => ?_, fun f _ => ?_⟩, rfl, hsettled _⟩
    · obtain ⟨hplain, huser⟩ := hk.user id u' hu'
      exact hk.setUser hplain huser (fun w u'' hl hp => hk.userUnique w id u'' u' hl hu' hp)
    · have hsame : ∀ w, t.dir.flag w = (t.dir.setUser id next).flag w := by
        intro w
        rw [flag_setUser]
        split
        · rename_i heq
          rw [heq, hflag, hactive]
        · rfl
      exact obs_of_activity t ⟨t.dir.setUser id next, t.perms, t.calls+1, t.failures⟩
        (fun v => by rw [hsame v]) rfl rfl (fun w _ => hsame w) (fun _ _ w _ => hsame w)
  · rintro r t ⟨rfl, ht⟩
    exact done ht

theorem safe_absent {s : Service} (hkeys : s.dir.Keys env.parse plain) {id : String}
    (hl : s.dir.users.lookup id = none) {e : Reply} {rest : User → Prog Service Reply} :
    ScopeSafe env plain (.rename id)
      (do
        match ← Prog.read (fun s : Service => s.dir.users.lookup id) with
        | none => pure e
        | some prev => rest prev)
      (fun _ t => Settled env (.rename id) t) s := by
  refine (read (P := (· = none)) (Track.init hkeys) fun t ht => ?_).bind ?_
  · have hsame : s.dir.flag id = t.dir.flag id := ht.same (.user id) rfl (by simp)
    rw [← flag_eq_none_iff, ← hsame, flag_eq_none_iff]
    exact hl
  · rintro r t ⟨rfl, -⟩
    have hsettled : ∀ t, Settled env (.rename id) t := settled_of_none (fun _ h => h)
    exact done (hsettled t)

theorem Track.groupsContainingUser {s₀ s : Service} {id : String} {user : Uuid}
    {gids : List String} (h : Track env plain (.user id gids) s₀ [] s)
    (hu : env.parse id = some user) (order : MapOrder) :
    ScopeSafe env plain (.user id gids) (Permission.groupsContainingUser order id)
      (fun found t => (∀ gid, gid ∈ found ↔ s₀.dir.inGroup id gid = true) ∧
        Track env plain (.user id gids) s₀ [] t) s := by
  refine read h fun t ht gid => ?_
  have hnames : s₀.dir.names env.parse gid user = t.dir.names env.parse gid user :=
    ht.same (.names gid user) hu (by simp)
  rw [List.mem_filter, (order.perm _).mem_iff, inGroup_iff_names hu, inGroup_iff_names hu, hnames]
  constructor
  · exact fun hin => hin.2
  · intro hin
    refine ⟨?_, hin⟩
    obtain ⟨-, g, hl, -⟩ := mem_names_iff.mp hin
    exact AList.mem_keys.mpr (AList.lookup_isSome.mp (by rw [hl]; rfl))

theorem toggles_control {s₀ : Service} (hkeys : s₀.dir.Keys env.parse plain) {id : String}
    {user : Uuid} (hu : env.parse id = some user) {gids found : List String}
    (hfound : ∀ gid, gid ∈ found ↔ s₀.dir.inGroup id gid = true) (grant : Bool) :
    ∀ op ∈ found.map (fun gid => (⟨grant, groupMemberTuple gid id⟩ : TupleOp)),
      ∃ t, op.tuple.decode env.parse = some t ∧ (Scope.user id gids).Controls env.parse t := by
  intro op hop
  obtain ⟨gid, hgid, rfl⟩ := List.mem_map.mp hop
  rw [hfound, inGroup_iff_names hu] at hgid
  obtain ⟨-, g, hl, -⟩ := mem_names_iff.mp hgid
  obtain ⟨-, group, hg⟩ := hkeys.group gid g hl
  exact ⟨_, decode_member hg hu, group, user, hu, rfl⟩

/-- Where every group that names the user does so by this id, the operations name the
tuples of exactly the groups the user is a member of. -/
theorem toggles_name {s₀ : Service} (hkeys : s₀.dir.Keys env.parse plain) {id : String}
    {user : Uuid} (hu : env.parse id = some user) (hspell : s₀.dir.SpellsUser env.parse id)
    {found : List String} (hfound : ∀ gid, gid ∈ found ↔ s₀.dir.inGroup id gid = true)
    (group : Uuid) (grant : Bool) :
    (∃ op ∈ found.map (fun gid => (⟨grant, groupMemberTuple gid id⟩ : TupleOp)),
      op.tuple.decode env.parse = some (memberTuple group user)) ↔
      s₀.dir.HasMember env.parse group user := by
  rw [hasMember_iff_names]
  constructor
  · rintro ⟨op, hop, hd⟩
    obtain ⟨gid, hgid, rfl⟩ := List.mem_map.mp hop
    rw [hfound, inGroup_iff_names hu] at hgid
    obtain ⟨-, g, hl, -⟩ := mem_names_iff.mp hgid
    obtain ⟨-, group', hg⟩ := hkeys.group gid g hl
    rw [decode_member hg hu] at hd
    have heq : group' = group := by
      simpa [memberTuple] using hd
    exact ⟨gid, id, heq ▸ hg, hgid⟩
  · rintro ⟨gid, v, hg, hv⟩
    obtain ⟨hname, g, hl, m, hm, rfl⟩ := mem_names_iff.mp hv
    obtain rfl : m.value = id := hspell gid g hl m hm (hname.trans hu.symm)
    refine ⟨⟨grant, groupMemberTuple gid m.value⟩, List.mem_map.mpr ⟨gid, ?_, rfl⟩,
      decode_member hg hu⟩
    rw [hfound, inGroup_iff_names hu]
    exact hv

theorem Track.readUser {s₀ s : Service} {scope : Scope} {id : String} {u : User}
    (h : Track env plain scope s₀ [] s) (hneed : scope.needs env.parse (.user id))
    (hl : s₀.dir.users.lookup id = some u) :
    ScopeSafe env plain scope (.read fun s : Service => s.dir.users.lookup id)
      (fun r t => (∃ prev : User, r = some prev ∧ prev.active = u.active) ∧
        Track env plain scope s₀ [] t) s := by
  refine read h fun t ht => ?_
  have hsame : s₀.dir.flag id = t.dir.flag id := ht.same (.user id) hneed (by simp)
  have hflag : t.dir.flag id = some u.active := by
    rw [← hsame, flag, hl]
    rfl
  exact Option.map_eq_some_iff.mp hflag

theorem Track.userActiveToggleOps {s₀ s : Service} {id : String} {user : Uuid}
    {gids : List String} (h : Track env plain (.user id gids) s₀ [] s)
    (hu : env.parse id = some user) (order : MapOrder) (nowActive : Bool) :
    ScopeSafe env plain (.user id gids) (Permission.userActiveToggleOps order id nowActive)
      (fun ops t => (∃ found : List String,
          (∀ gid, gid ∈ found ↔ s₀.dir.inGroup id gid = true) ∧
          ops = found.map fun gid => ⟨nowActive, groupMemberTuple gid id⟩) ∧
        Track env plain (.user id gids) s₀ [] t) s := by
  refine (h.groupsContainingUser hu order).bind ?_
  rintro found t ⟨hfound, ht⟩
  exact doneTrack ht ⟨found, hfound, rfl⟩

theorem inGroup_mem_keys {dir : Directory} {id gid : String} (h : dir.inGroup id gid = true) :
    gid ∈ dir.groups.keys.filter (dir.inGroup id) := by
  refine List.mem_filter.mpr ⟨?_, h⟩
  rw [inGroup] at h
  split at h
  · cases h
  · rename_i g hl
    exact AList.mem_keys.mpr (AList.lookup_isSome.mp (by rw [hl]; rfl))

theorem Track.commitToggle {ρ : Type} {s₀ s : Service} {id : String} {user : Uuid}
    (hu : env.parse id = some user) {ops : List TupleOp}
    (h : Track env plain (.user id (s₀.dir.groups.keys.filter (s₀.dir.inGroup id))) s₀ ops s)
    {f : Service → Service × ρ} {P : ρ → Prop}
    (hf : ∀ t, t.dir.Keys env.parse plain → t.dir.flag id = s₀.dir.flag id →
      (∀ gid, s₀.dir.names env.parse gid user = t.dir.names env.parse gid user) →
      (f t).1.failures = 0 →
      P (f t).2 ∧ (f t).1.perms = t.perms ∧
      Directory.TouchesUser env.parse id user t.dir (f t).1.dir ∧
      (f t).1.dir.Keys env.parse plain ∧
      ∀ group, (memberTuple group user ∈ after env.parse ops s₀.perms.tuples ↔
        (f t).1.dir.HasMember env.parse group user ∧ ¬(f t).1.dir.Inactive env.parse user)) :
    ScopeSafe env plain (.user id (s₀.dir.groups.keys.filter (s₀.dir.inGroup id))) (.modify f)
      (fun r t => P r ∧
        Settled env (.user id (s₀.dir.groups.keys.filter (s₀.dir.inGroup id))) t) s := by
  refine commit h fun t ht hok => ?_
  have hflag : s₀.dir.flag id = t.dir.flag id := ht.same (.user id) rfl (by simp)
  have hnames : ∀ gid, s₀.dir.names env.parse gid user = t.dir.names env.parse gid user :=
    fun gid => ht.same (.names gid user) hu (by simp)
  obtain ⟨hP, hperms, htouch, hkeys, hmember⟩ := hf t ht.keys hflag.symm hnames hok
  refine ⟨guar_user hu htouch (fun gid hin => ?_) hperms (fun _ => hkeys), hP, ?_⟩
  · rw [inGroup_iff_names hu, ← hnames, ← inGroup_iff_names hu] at hin
    exact inGroup_mem_keys hin
  · rintro x ⟨group, user', hu', rfl⟩
    obtain rfl : user' = user := Option.some.inj (hu'.symm.trans hu)
    rw [hperms, ht.tuples _ ⟨group, user', hu', rfl⟩, hmember, wants_member_iff]

theorem Directory.Keys.inactive_iff {parse : String → Option Uuid} {dir : Directory}
    (h : dir.Keys parse plain) {id : String} {user : Uuid} (hu : parse id = some user)
    (hne : dir.flag id ≠ none) : dir.Inactive parse user ↔ dir.flag id = some false := by
  rw [inactive_iff_flag]
  constructor
  · rintro ⟨w, hw, hp⟩
    have hw' : dir.users.lookup w ≠ none := by
      rw [ne_eq, ← flag_eq_none_iff, hw]
      simp
    obtain ⟨u, hl⟩ := Option.ne_none_iff_exists'.mp hw'
    rw [ne_eq, flag_eq_none_iff] at hne
    obtain ⟨u', hl'⟩ := Option.ne_none_iff_exists'.mp hne
    obtain rfl := h.userUnique w id u u' hl hl' (hp.trans hu.symm)
    exact hw
  · exact fun hw => ⟨id, hw, hu⟩

theorem touchesUser_setUser {parse : String → Option Uuid} (dir : Directory) (id : String)
    (user : Uuid) (u : User) : Directory.TouchesUser parse id user dir (dir.setUser id u) := by
  refine ⟨fun w hne => ?_, fun _ _ => rfl, fun _ => rfl, fun _ _ _ => rfl⟩
  rw [flag_setUser, if_neg hne]

theorem toggled {s₀ : Service} (hkeys : s₀.dir.Keys env.parse plain) {id : String} {user : Uuid}
    (hu : env.parse id = some user) {u : User} (hl : s₀.dir.users.lookup id = some u)
    (hspell : s₀.dir.SpellsUser env.parse id) {gids : List String}
    (h₀ : Settled env (.user id gids) s₀) {found : List String}
    (hfound : ∀ gid, gid ∈ found ↔ s₀.dir.inGroup id gid = true) {nowActive : Bool}
    (hflip : u.active ≠ nowActive) (group : Uuid) :
    memberTuple group user ∈ after env.parse
        (found.map fun gid => ⟨nowActive, groupMemberTuple gid id⟩) s₀.perms.tuples ↔
      s₀.dir.HasMember env.parse group user ∧ nowActive = true := by
  have hname := toggles_name hkeys hu hspell hfound group nowActive
  have hbefore := h₀ (memberTuple group user) ⟨group, user, hu, rfl⟩
  have hflag : s₀.dir.flag id = some u.active := by rw [flag, hl]; rfl
  rw [wants_member_iff, hkeys.inactive_iff hu (by rw [hflag]; simp), hflag] at hbefore
  cases nowActive with
  | true =>
    have hinactive : u.active = false := by simpa using hflip
    rw [mem_after_grants grant_of_mem_map, hname, hbefore, hinactive]
    simp
  | false =>
    rw [mem_after_revokes grant_of_mem_map, hname, hbefore]
    tauto

theorem safe_replaceUser {s : Service} (hkeys : s.dir.Keys env.parse plain) (order : MapOrder)
    (id : String) (now : Int) (input : Option UserInput)
    (hspell : (replaceUser order id now input).OneSpelling env.parse s.dir)
    (h₀ : Settled env ((replaceUser order id now input).scope env.parse s.dir) s) :
    ScopeSafe env plain ((replaceUser order id now input).scope env.parse s.dir)
      (scimReplaceUser env order id now input)
      (fun _ t => Settled env ((replaceUser order id now input).scope env.parse s.dir) t)
      s := by
  cases input with
  | none => exact done h₀
  | some input =>
    cases hl : s.dir.users.lookup id with
    | none =>
      have hscope : (replaceUser order id now (some input)).scope env.parse s.dir =
          .rename id := by
        simp [scope, hl]
      rw [hscope]
      exact safe_absent hkeys hl
    | some u =>
      have hflag₀ : s.dir.flag id = some u.active := by rw [flag, hl]; rfl
      by_cases hflip : u.active = input.active
      · have hscope : (replaceUser order id now (some input)).scope env.parse s.dir =
            .rename id := by
          simp [scope, hl, hflip]
        rw [hscope]
        have hneed : (Scope.rename id).needs env.parse (.user id) := rfl
        refine ((Track.init hkeys).readUser hneed hl).bind ?_
        rintro r t ⟨⟨prev, rfl, hprev⟩, ht⟩
        have hsame : ¬prev.active ≠ (prev.replace now input).active := by
          simpa [User.replace, hprev] using hflip
        dsimp only
        rw [if_neg hsame]
        exact ht.finishRename hl hflip.symm
      · have hscope : (replaceUser order id now (some input)).scope env.parse s.dir =
            .user id (s.dir.groups.keys.filter (s.dir.inGroup id)) := by
          simp [scope, hl, hflip]
        rw [hscope] at h₀ ⊢
        obtain ⟨hplain, user, hu⟩ := hkeys.user id u hl
        have hspell := hspell u hl hflip
        have hneed : (Scope.user id (s.dir.groups.keys.filter (s.dir.inGroup id))).needs env.parse
            (.user id) := rfl
        refine ((Track.init hkeys).readUser hneed hl).bind ?_
        rintro r t ⟨⟨prev, rfl, hprev⟩, ht⟩
        have hdiffer : prev.active ≠ (prev.replace now input).active := by
          simpa [User.replace, hprev] using hflip
        dsimp only
        rw [if_pos hdiffer]
        refine (ht.userActiveToggleOps hu order input.active).bind ?_
        rintro ops t ⟨⟨found, hfound, rfl⟩, ht⟩
        refine (ht.applyTupleOps (toggles_control hkeys hu hfound input.active)).bind ?_
        rintro b t ⟨rfl, ht⟩
        refine (ht.commitToggle (P := (· = .saved)) hu fun t hkeys' hflag hnames hok => ?_).bind ?_
        · have hpresent : ¬t.dir.users.lookup id = none := by
            rw [← flag_eq_none_iff, hflag, hflag₀]
            simp
          obtain ⟨u', hu'⟩ := Option.ne_none_iff_exists'.mp hpresent
          rw [if_neg hpresent] at hok ⊢
          have hsave : (t.save env (·.setUser id (prev.replace now input))).1.failures = 0 := hok
          rw [save_ok hsave]
          have hset : (t.dir.setUser id (prev.replace now input)).Keys env.parse plain :=
            hkeys'.setUser hplain ⟨user, hu⟩
              (fun w u'' hl hp => hkeys'.userUnique w id u'' u' hl hu' hp)
          refine ⟨rfl, rfl, touchesUser_setUser t.dir id user _, hset, fun group => ?_⟩
          have hnew : (t.dir.setUser id (prev.replace now input)).flag id = some input.active := by
            rw [flag_setUser, if_pos rfl]
            rfl
          have hmember : s.dir.HasMember env.parse group user ↔
              (t.dir.setUser id (prev.replace now input)).HasMember env.parse group user :=
            hasMember_congr hnames
          rw [toggled hkeys hu hl hspell h₀ hfound hflip, hmember]
          change _ ↔ (t.dir.setUser id (prev.replace now input)).HasMember env.parse group user ∧
            ¬(t.dir.setUser id (prev.replace now input)).Inactive env.parse user
          rw [hset.inactive_iff hu (by rw [hnew]; simp), hnew]
          simp
        · rintro r t ⟨rfl, ht⟩
          exact done ht

theorem Track.userRemovalOps {s₀ s : Service} (hkeys : s₀.dir.Keys env.parse plain) {id : String}
    {user : Uuid} {gids : List String} (h : Track env plain (.user id gids) s₀ [] s)
    (hu : env.parse id = some user) {u : User} (hl : s₀.dir.users.lookup id = some u)
    (hspell : s₀.dir.SpellsUser env.parse id) (h₀ : Settled env (.user id gids) s₀)
    (order : MapOrder) :
    ScopeSafe env plain (.user id gids) (Permission.userRemovalOps order id)
      (fun ops t => ((∀ op ∈ ops, ∃ t, op.tuple.decode env.parse = some t ∧
          (Scope.user id gids).Controls env.parse t) ∧
        ∀ group, memberTuple group user ∉ after env.parse ops s₀.perms.tuples) ∧
        Track env plain (.user id gids) s₀ [] t) s := by
  have hflag : s₀.dir.flag id = some u.active := by rw [flag, hl]; rfl
  refine (read (P := (· = u.active)) h fun t ht => ?_).bind ?_
  · have hsame : s₀.dir.flag id = t.dir.flag id := ht.same (.user id) rfl (by simp)
    rw [userActive_eq_flag, ← hsame, hflag]
    rfl
  rintro active t ⟨rfl, ht⟩
  by_cases hactive : u.active = true
  · rw [if_pos hactive]
    refine (ht.groupsContainingUser hu order).bind ?_
    rintro found v ⟨hfound, hv⟩
    refine doneTrack hv ⟨toggles_control hkeys hu hfound false, fun group hmem => ?_⟩
    rw [toggled hkeys hu hl hspell h₀ hfound (by simp [hactive])] at hmem
    cases hmem.2
  · rw [if_neg hactive]
    refine doneTrack ht ⟨by simp, fun group hmem => ?_⟩
    have hmem := (h₀ (memberTuple group user) ⟨group, user, hu, rfl⟩).mp hmem
    rw [wants_member_iff, hkeys.inactive_iff hu (by rw [hflag]; simp), hflag] at hmem
    exact hmem.2 (by simpa using hactive)

theorem safe_deleteUser {s : Service} (hkeys : s.dir.Keys env.parse plain) (order : MapOrder)
    (id : String) (now : Int)
    (hspell : (deleteUser order id now).OneSpelling env.parse s.dir)
    (h₀ : Settled env ((deleteUser order id now).scope env.parse s.dir) s) :
    ScopeSafe env plain ((deleteUser order id now).scope env.parse s.dir)
      (scimDeleteUser env order id now)
      (fun _ t => Settled env ((deleteUser order id now).scope env.parse s.dir) t) s := by
  cases hl : s.dir.users.lookup id with
  | none =>
    have hscope : (deleteUser order id now).scope env.parse s.dir = .rename id := by
      simp [scope, hl]
    rw [hscope]
    exact safe_absent hkeys hl
  | some u =>
    have hscope : (deleteUser order id now).scope env.parse s.dir =
        .user id (s.dir.groups.keys.filter (s.dir.inGroup id)) := by
      simp [scope, hl]
    rw [hscope] at h₀ ⊢
    obtain ⟨hplain, user, hu⟩ := hkeys.user id u hl
    have hspell := hspell u hl
    have hneed : (Scope.user id (s.dir.groups.keys.filter (s.dir.inGroup id))).needs env.parse
        (.user id) := rfl
    refine ((Track.init hkeys).readUser hneed hl).bind ?_
    rintro r t ⟨⟨prev, rfl, -⟩, ht⟩
    refine (Track.userRemovalOps hkeys ht hu hl hspell h₀ order).bind ?_
    rintro ops t ⟨⟨hops, hgone⟩, ht⟩
    refine (ht.applyTupleOps hops).bind ?_
    rintro b t ⟨rfl, ht⟩
    refine (ht.commitToggle (P := (· = true)) hu fun t hkeys' hflag hnames hok => ?_).bind ?_
    · rw [save_ok hok]
      refine ⟨rfl, rfl, touchesUser_deleteUser hkeys' hu now, hkeys'.deleteUser id now, ?_⟩
      intro group
      refine iff_of_false (hgone group) ?_
      rintro ⟨hmember, -⟩
      obtain ⟨gid, v, -, hv⟩ := hasMember_iff_names.mp hmember
      change v ∈ (t.dir.deleteUser id now).names env.parse gid user at hv
      rw [names_deleteUser hkeys' hu, if_pos rfl, ← hnames, List.mem_filter] at hv
      obtain ⟨hname, g, hg, m, hm, rfl⟩ := mem_names_iff.mp hv.1
      have heq : m.value = id := hspell gid g hg m hm (hname.trans hu.symm)
      simp [heq] at hv
    · rintro r t ⟨rfl, ht⟩
      exact done ht

theorem handler_safe {s : Service} (hkeys : s.dir.Keys env.parse plain) (request : Request)
    (hplain : request.Plain env.parse plain) (hfresh : request.Fresh env s.dir)
    (hspell : request.OneSpelling env.parse s.dir)
    (h₀ : Settled env (request.scope env.parse s.dir) s) :
    ScopeSafe env plain (request.scope env.parse s.dir) (request.handler env)
      (fun _ t => Settled env (request.scope env.parse s.dir) t) s := by
  cases request with
  | createUser id now input => exact safe_createUser hkeys id now input hplain hfresh
  | replaceUser order id now input => exact safe_replaceUser hkeys order id now input hspell h₀
  | deleteUser order id now => exact safe_deleteUser hkeys order id now hspell h₀
  | createGroup orders id now input =>
    exact safe_createGroup hkeys orders id now input hplain hfresh hspell h₀
  | replaceGroup orders id now input =>
    exact safe_replaceGroup hkeys orders id now input hplain hspell h₀
  | deleteGroup orders id => exact safe_deleteGroup hkeys orders id hspell h₀

end

end Knowledge.Permission
