import Knowledge.Evidence.Effects
import Knowledge.Evidence.Readback

/-!
A standby that reads what its primary wrote. Its file is replaced by images of the primary's,
while the key cache is the one it was opened with: which keys are at hand was settled then.
-/

set_option autoImplicit false

namespace Knowledge.Evidence
open Knowledge.Cipher
open Knowledge.Sync (Uuid)
open Knowledge.Transition
open EvidenceStore

section

variable {s t : EvidenceStore} {op : Op}

theorem keyFor_of_effect (h : Effect s op t) (hs : s.Hydrated) {scope : ScopeId}
    (hevidence : hasEvidence s.db scope = true) (hop : op ≠ .deleteScopeDek scope) :
    t.keyFor scope = s.keyFor scope := by
  cases h with
  | keeps hkeeps => exact hkeeps.resolves.keyFor scope
  | inline _ hresolves => exact hresolves.keyFor scope
  | table _ hadmits => exact hadmits.resolves.keyFor scope
  | approved hadmits hkeeps =>
    exact (hkeeps.resolves.keyFor scope).trans (hadmits.resolves.keyFor scope)
  | provides hrow hprovides hdek =>
    rw [hprovides.key]
    split
    · rename_i heq
      subst heq
      obtain hlegacy | ⟨-, hnone⟩ := hdek
      · rw [hlegacy, hs.agrees scope trivial, dekFor_eq_none hrow]
        rfl
      · rw [hnone] at hevidence
        cases hevidence
    · rfl
  | deletes =>
    rename_i other
    rw [keyFor_deleteScopeDek, if_neg]
    rintro rfl
    exact hop rfl
  | purges => rfl
  | reopens _ _ _ hkey => exact hkey scope

theorem wrap_of_effect (h : Effect s op t) {hash : ContentHash} {scope : ScopeId}
    {w : Ciphertext AeadKey} (hop : op ≠ .purgeBodyKeyWraps scope)
    (hw : s.db.wrap hash scope = some w) : t.db.wrap hash scope = some w := by
  cases h with
  | keeps hkeeps => rwa [Database.wrap, hkeeps.keyWraps]
  | inline _ _ _ _ _ hwraps => rwa [Database.wrap, hwraps]
  | table _ hadmits => exact hadmits.kept hash scope w hw
  | approved hadmits hkeeps =>
    rw [Database.wrap, hkeeps.keyWraps]
    exact hadmits.kept hash scope w hw
  | provides _ hprovides => rwa [Database.wrap, hprovides.data.keyWraps]
  | deletes => exact hw
  | purges =>
    rename_i other
    rw [wrap_purge, if_neg, hw]
    rintro rfl
    exact hop rfl
  | reopens hdb => rwa [hdb]

/-- What a scope reads it goes on reading until it is forgotten: a body may be counted anew, but
it is the same body under the same content key. -/
theorem readsAs_of_effect (h : Effect s op t) (hs : Settled s) {id : EvidenceId}
    {row : EvidenceRow} {body : Bytes} (hrow : s.db.evidence.lookup id = some row)
    (hdelete : op ≠ .deleteScopeDek row.scopeId) (hpurge : op ≠ .purgeBodyKeyWraps row.scopeId)
    (hreads : ReadsAs s id row body) : ReadsAs t id row body := by
  have hevidence : hasEvidence s.db row.scopeId = true := by
    rw [hasEvidence, Table.any_eq_true]
    exact ⟨id, row, hrow, by simp⟩
  have hkey := keyFor_of_effect h hs.hydrated hevidence hdelete
  cases hreads with
  | inline c hpath hbody hsealed =>
    rw [← hkey] at hsealed
    exact .inline c hpath hbody hsealed
  | table ref bodyRow w cek hpath href hbody hwrap hcek hsealed =>
    have hw : t.db.wrap ref row.scopeId = some w := wrap_of_effect h hpurge hwrap
    obtain ⟨haad, bodyRow', hbody', hcek'⟩ := (h.bodies hs.bodies).wraps ref row.scopeId w hw
    obtain ⟨hbodyAad, hhash'⟩ := (h.bodies hs.bodies).bodies ref bodyRow' hbody'
    obtain ⟨-, hhash⟩ := hs.bodies.bodies ref bodyRow hbody
    have href' : ref = row.contentHash := by
      have heq := haad.symm.trans hcek.aad
      simpa [cekWrapAad] using heq
    have hplain : bodyRow'.body.plain = body := by
      rw [← hsealed.plain]
      exact ContentHash.mk.inj (hhash'.trans hhash.symm)
    rw [← hkey] at hcek
    refine .table ref bodyRow' w cek hpath href hbody' hw hcek ⟨?_, ?_, hplain⟩
    · rw [hcek', hcek.plain]
    · rw [hbodyAad, href']

end

/-- A standby: its store, with the primary's ledger as of the image it has; the store as it was
when it was opened; the primary as it was when the image was taken; and whether it has taken
over. -/
structure Standby where
  books : Books
  opened : EvidenceStore
  image : Books
  promoted : Bool

structure Pair where
  primary : Books
  standby : Option Standby

open Pair

inductive Event where
  | primary (op : Op)
  | openStandby (config : EvidenceStoreConfig)
  | ship
  | promote
  | standby (op : Op)

def Op.Reads : Op → Prop
  | .readBody _ | .loadMemoryBlob .. | .loadConnectorInstances | .loadConnectorTokens
  | .loadApprovedDocumentPayload .. => True
  | _ => False

namespace Standby

/-- The file is replaced and the connection rebuilt on it. Draws are told apart by their number,
so that the standby counts on from the primary. -/
def follow (st : Standby) (primary : Books) : Standby :=
  { st with
    books := { primary with
      store := { st.books.store.reopenConnection primary.store.db with
        draws := primary.store.draws } }
    image := primary }

/-- The key that the image has for the scope is the legacy one, or was in the file that the
standby was opened on. -/
def KeyAtHand (st : Standby) (scope : ScopeId) : Prop :=
  ∀ key, st.image.store.dekFor scope = some key →
    key = st.image.store.legacyKey scope ∨ st.opened.dekFor scope = some key

end Standby

namespace Pair

def next (pair : Pair) : Event → Pair
  | .primary op => { pair with primary := pair.primary.next op }
  | .openStandby config =>
    match openFile pair.primary.store.db pair.primary.store.masterKey config
        pair.primary.store.draws with
    | .error _ => pair
    | .ok store =>
      { pair with standby := some ⟨{ pair.primary with store := store }, store, pair.primary, false⟩ }
  | .ship => { pair with standby := pair.standby.map (·.follow pair.primary) }
  | .promote => { pair with standby := pair.standby.map fun st => { st with promoted := true } }
  | .standby op =>
    { pair with standby := pair.standby.map fun st => { st with books := st.books.next op } }

/-- Images arrive and reads are served until the standby takes over; it then takes any call. -/
def enabled (pair : Pair) : Event → Prop
  | .primary op => pair.primary.enabled op
  | .openStandby _ => True
  | .ship | .promote => ∀ st, pair.standby = some st → st.promoted = false
  | .standby op => ∀ st, pair.standby = some st →
    if st.promoted then st.books.enabled op else op.Reads

def system (masterKey : MasterKey) (config : EvidenceStoreConfig) : System Pair Event :=
  .ofNext (· = ⟨.start masterKey config, none⟩) enabled next

end Pair

theorem dekFor_of_effect {s t : EvidenceStore} {op : Op} (h : Effect s op t) {scope : ScopeId}
    {key : AeadKey} (hop : op ≠ .deleteScopeDek scope) (hkey : s.dekFor scope = some key) :
    t.dekFor scope = some key := by
  cases h with
  | keeps hkeeps => rwa [hkeeps.resolves.dekFor]
  | inline _ hresolves => rwa [hresolves.dekFor]
  | table _ hadmits => exact (hadmits.resolves.dekFor scope).trans hkey
  | approved hadmits hkeeps => rwa [hkeeps.resolves.dekFor, hadmits.resolves.dekFor]
  | provides hrow hprovides =>
    rw [hprovides.dek, if_neg, hkey]
    rintro rfl
    rw [dekFor_eq_none hrow] at hkey
    cases hkey
  | deletes =>
    rename_i other
    rw [dekFor_deleteScopeDek, if_neg, hkey]
    rintro rfl
    exact hop rfl
  | purges => exact hkey
  | reopens hdb hmaster => rwa [dekFor, hdb, hmaster]

theorem live_of_next {b : Books} {op : Op} {scope : ScopeId} (henabled : b.enabled op)
    (hlive : (b.next op).live scope) :
    b.live scope ∧ op ≠ .deleteScopeDek scope ∧ op ≠ .purgeBodyKeyWraps scope := by
  cases op with
  | deleteScopeDek other =>
    refine ⟨fun hmem => hlive (List.mem_cons_of_mem _ hmem), ?_, by simp⟩
    rintro heq
    obtain rfl := Op.deleteScopeDek.inj heq
    exact hlive List.mem_cons_self
  | purgeBodyKeyWraps other =>
    refine ⟨hlive, by simp, ?_⟩
    rintro heq
    obtain rfl := Op.purgeBodyKeyWraps.inj heq
    exact hlive henabled
  | _ => exact ⟨hlive, by simp, by simp⟩

theorem Op.Reads.quiet {op : Op} (h : op.Reads) (b : Books) : Quiet b.store (b.next op).store ∧
    (b.next op).ledger = b.ledger ∧ (b.next op).forgotten = b.forgotten := by
  cases op with
  | readBody id => exact ⟨b.store.quiet_readBody id, rfl, rfl⟩
  | loadMemoryBlob scope kind => exact ⟨b.store.quiet_loadMemoryBlob scope kind, rfl, rfl⟩
  | loadConnectorInstances => exact ⟨b.store.quiet_openInstances _, rfl, rfl⟩
  | loadConnectorTokens => exact ⟨b.store.quiet_openTokens _, rfl, rfl⟩
  | loadApprovedDocumentPayload scope documentId =>
    exact ⟨b.store.quiet_loadApprovedDocumentPayload scope documentId, rfl, rfl⟩
  | _ => exact h.elim

/-- A standby that follows: its file is the image, and its keys those it was opened with. -/
structure Mirrors (st : Standby) : Prop where
  db : st.books.store.db = st.image.store.db
  master : st.books.store.masterKey = st.image.store.masterKey
  ledger : st.books.ledger = st.image.ledger
  forgotten : st.books.forgotten = st.image.forgotten
  key : ∀ scope, st.books.store.keyFor scope =
    (st.opened.dekFor scope).getD (st.image.store.legacyKey scope)

/-- A stored key of a live scope stays stored, and what the image reads the primary reads too. -/
structure Follows (p : Books) (st : Standby) : Prop where
  settled : Settled st.image.store
  master : st.image.store.masterKey = p.store.masterKey
  deks : ∀ scope key, p.live scope → st.opened.dekFor scope = some key →
    p.store.dekFor scope = some key
  imageDeks : ∀ scope key, st.image.live scope → st.opened.dekFor scope = some key →
    st.image.store.dekFor scope = some key
  steady : ∀ id row body, st.image.store.db.evidence.lookup id = some row → p.live row.scopeId →
    (st.image.store.readBody id).2 = .ok body →
    p.store.db.evidence.lookup id = some row ∧ ReadsAs p.store id row body
  mirrors : st.promoted = false → Mirrors st

theorem Follows.primary {p : Books} {st : Standby} (h : Follows p st) (hp : Settled p.store)
    {op : Op} (henabled : p.enabled op) : Follows (p.next op) st := by
  have he := hp.effect op
  refine ⟨h.settled, h.master.trans he.grows.master.symm, fun scope key hlive hkey => ?_,
    h.imageDeks, fun id row body hrow hlive hread => ?_, h.mirrors⟩
  · obtain ⟨hlive, hdelete, -⟩ := live_of_next henabled hlive
    exact dekFor_of_effect he hdelete (h.deks scope key hlive hkey)
  · obtain ⟨hlive, hdelete, hpurge⟩ := live_of_next henabled hlive
    obtain ⟨hrow, hreads⟩ := h.steady id row body hrow hlive hread
    exact ⟨he.grows.evidence id row (hp.ids id row hrow) hrow,
      readsAs_of_effect he hp hrow hdelete hpurge hreads⟩

theorem follows_open {p : Books} (hp : Settled p.store) {config : EvidenceStoreConfig}
    {store : EvidenceStore}
    (hopen : openFile p.store.db p.store.masterKey config p.store.draws = .ok store) :
    Follows p ⟨{ p with store := store }, store, p, false⟩ := by
  obtain ⟨deks, hload, hcache⟩ := loadScopeDeks_ok hp.hydrated
  unfold openFile at hopen
  split at hopen
  · cases hopen
  · split at hopen
    · cases hopen
    · rw [hload] at hopen
      obtain rfl := Except.ok.inj hopen
      refine ⟨hp, rfl, fun _ _ _ hkey => hkey, fun _ _ _ hkey => hkey, fun id row body hrow _ hread =>
        ⟨hrow, readsAs_of_readBody hrow hread⟩, fun _ => ⟨rfl, rfl, rfl, rfl, fun scope => ?_⟩⟩
      rw [keyFor, hcache]
      rfl

theorem Follows.ship {p : Books} {st : Standby} (h : Follows p st) (hp : Settled p.store)
    (hpromoted : st.promoted = false) : Follows p (st.follow p) := by
  have hm := h.mirrors hpromoted
  have hmaster : st.books.store.masterKey = p.store.masterKey := hm.master.trans h.master
  refine ⟨hp, rfl, h.deks, h.deks, fun id row body hrow _ hread =>
    ⟨hrow, readsAs_of_readBody hrow hread⟩, fun _ => ⟨rfl, hmaster, rfl, rfl, fun scope => ?_⟩⟩
  have hkey := hm.key scope
  simp only [Standby.follow, reopenConnection, keyFor, legacyKey] at hkey ⊢
  rw [hkey, h.master]

theorem Follows.standby {p : Books} {st : Standby} (h : Follows p st) {op : Op}
    (hreads : st.promoted = false → op.Reads) :
    Follows p { st with books := st.books.next op } := by
  refine ⟨h.settled, h.master, h.deks, h.imageDeks, h.steady, fun hpromoted => ?_⟩
  have hm := h.mirrors hpromoted
  obtain ⟨hquiet, hledger, hforgotten⟩ := (hreads hpromoted).quiet st.books
  refine ⟨hquiet.db.trans hm.db, hquiet.resolves.master.trans hm.master, hledger.trans hm.ledger,
    hforgotten.trans hm.forgotten, fun scope => ?_⟩
  exact (hquiet.resolves.keyFor scope).trans (hm.key scope)

structure Following (pair : Pair) : Prop where
  settled : Settled pair.primary.store
  follows : ∀ st, pair.standby = some st → Follows pair.primary st

theorem Following.next {pair : Pair} (h : Following pair) {event : Event}
    (henabled : pair.enabled event) : Following (pair.next event) := by
  cases event with
  | primary op =>
    exact ⟨h.settled.next op, fun st hst => (h.follows st hst).primary h.settled henabled⟩
  | openStandby config =>
    simp only [Pair.next]
    split
    · exact h
    · rename_i store hopen
      refine ⟨h.settled, fun st hst => ?_⟩
      obtain rfl := Option.some.inj hst
      exact follows_open h.settled hopen
  | ship =>
    refine ⟨h.settled, fun st hst => ?_⟩
    obtain ⟨st₀, hst₀, rfl⟩ := Option.map_eq_some_iff.mp hst
    exact (h.follows st₀ hst₀).ship h.settled (henabled st₀ hst₀)
  | promote =>
    refine ⟨h.settled, fun st hst => ?_⟩
    obtain ⟨st₀, hst₀, rfl⟩ := Option.map_eq_some_iff.mp hst
    obtain ⟨hsettled, hmaster, hdeks, himage, hsteady, -⟩ := h.follows st₀ hst₀
    exact ⟨hsettled, hmaster, hdeks, himage, hsteady, fun hpromoted => nomatch hpromoted⟩
  | standby op =>
    refine ⟨h.settled, fun st hst => ?_⟩
    obtain ⟨st₀, hst₀, rfl⟩ := Option.map_eq_some_iff.mp hst
    refine (h.follows st₀ hst₀).standby fun hpromoted => ?_
    have hreads := henabled st₀ hst₀
    rwa [hpromoted] at hreads

theorem following_of_reachable {masterKey : MasterKey} {config : EvidenceStoreConfig} {pair : Pair}
    (h : (system masterKey config).Reachable pair) : Following pair := by
  refine h.invariant Following ?_ ?_
  · rintro pair rfl
    exact ⟨settled_start masterKey config, fun st hst => nomatch hst⟩
  · rintro pair event pair' - hpair ⟨henabled, rfl⟩
    exact hpair.next henabled

theorem Follows.keyFor_eq_iff {p : Books} {st : Standby} (h : Follows p st)
    (hpromoted : st.promoted = false) {scope : ScopeId} (hlive : st.image.live scope) :
    st.books.store.keyFor scope = st.image.store.keyFor scope ↔ st.KeyAtHand scope := by
  rw [(h.mirrors hpromoted).key, h.settled.hydrated.agrees scope trivial]
  constructor
  · intro heq key hkey
    rw [hkey, Option.getD_some] at heq
    cases hopened : st.opened.dekFor scope with
    | none =>
      rw [hopened, Option.getD_none] at heq
      exact .inl heq.symm
    | some key' =>
      rw [hopened, Option.getD_some] at heq
      exact .inr (by rw [heq])
  · intro hhand
    cases hopened : st.opened.dekFor scope with
    | some key => rw [h.imageDeks scope key hlive hopened]
    | none =>
      cases hkey : st.image.store.dekFor scope with
      | none => rfl
      | some key =>
        obtain hlegacy | hsome := hhand key hkey
        · rw [hlegacy]
          rfl
        · rw [hopened] at hsome
          cases hsome

theorem Follows.readBody {p : Books} {st : Standby} (h : Follows p st)
    (hpromoted : st.promoted = false) {id : EvidenceId} {row : EvidenceRow}
    (hrow : st.books.store.db.evidence.lookup id = some row) (hlive : st.image.live row.scopeId) :
    (st.KeyAtHand row.scopeId → (st.books.store.readBody id).2 = (st.image.store.readBody id).2) ∧
    ∀ body, (st.image.store.readBody id).2 = .ok body →
      ((st.books.store.readBody id).2 = .ok body ↔ st.KeyAtHand row.scopeId) := by
  have hm := h.mirrors hpromoted
  have hrow' := hrow
  rw [hm.db] at hrow'
  have hsame : st.KeyAtHand row.scopeId →
      (st.books.store.readBody id).2 = (st.image.store.readBody id).2 := by
    intro hhand
    refine readBody_congr hrow' hrow ?_ ?_ ((h.keyFor_eq_iff hpromoted hlive).mpr hhand)
    · rw [hm.db]
    · rw [hm.db]
  refine ⟨hsame, fun body hread => ⟨fun hread' => ?_, fun hhand => (hsame hhand).trans hread⟩⟩
  exact (h.keyFor_eq_iff hpromoted hlive).mp (ReadsAs.keyFor_eq hm.db
    (readsAs_of_readBody hrow' hread) (readsAs_of_readBody hrow hread'))

/-- The standby takes over only while the keys of all live scopes are at hand, and neither store
provisions a scope that something besides evidence is sealed for. -/
def Pair.TakesOver (pair : Pair) : Event → Prop
  | .primary op => pair.primary.MintsUnused op
  | .promote => ∀ st, pair.standby = some st → ∀ scope, st.image.live scope → st.KeyAtHand scope
  | .standby op => ∀ st, pair.standby = some st → st.promoted = true → st.books.MintsUnused op
  | _ => True

/-- Both stores keep what was written, the standby from when it has taken over. -/
structure Entrusted (pair : Pair) : Prop where
  primary : Upkept pair.primary
  image : ∀ st, pair.standby = some st → Upkept st.image
  standby : ∀ st, pair.standby = some st → st.promoted = true → Upkept st.books

theorem Follows.upkept {p : Books} {st : Standby} (h : Follows p st)
    (hpromoted : st.promoted = false) (himage : Upkept st.image)
    (hhand : ∀ scope, st.image.live scope → st.KeyAtHand scope) : Upkept st.books := by
  have hm := h.mirrors hpromoted
  have hdek : ∀ scope, st.books.store.dekFor scope = st.image.store.dekFor scope := fun scope => by
    rw [dekFor, dekFor, hm.db, hm.master]
  have hlive : st.books.live = st.image.live := by
    funext scope
    rw [Books.live, Books.live, hm.forgotten]
  have hkey : ∀ scope, st.image.live scope →
      st.books.store.keyFor scope = st.image.store.keyFor scope := fun scope hs =>
    (h.keyFor_eq_iff hpromoted hs).mpr (hhand scope hs)
  refine ⟨⟨fun scope row hrow => ?_, fun scope hs => ?_⟩, ?_, ?_⟩
  · rw [hm.db] at hrow
    rw [hdek]
    exact himage.hydrated.opens scope row hrow
  · rw [hlive] at hs
    rw [hkey scope hs, hdek, legacyKey, hm.master]
    exact himage.hydrated.agrees scope hs
  · rw [hm.db]
    exact himage.bodies
  · rw [hm.ledger, hm.db, hlive]
    exact himage.kept.narrow (fun _ hs => hs) hkey

theorem Entrusted.next {pair : Pair} (h : Entrusted pair) (hf : Following pair) {event : Event}
    (henabled : pair.enabled event) (htakes : pair.TakesOver event) :
    Entrusted (pair.next event) := by
  cases event with
  | primary op => exact ⟨h.primary.next henabled htakes, h.image, h.standby⟩
  | openStandby config =>
    simp only [Pair.next]
    split
    · exact h
    · refine ⟨h.primary, fun st hst => ?_, fun st hst hpromoted => ?_⟩
      · obtain rfl := Option.some.inj hst
        exact h.primary
      · obtain rfl := Option.some.inj hst
        cases hpromoted
  | ship =>
    refine ⟨h.primary, fun st hst => ?_, fun st hst hpromoted => ?_⟩
    · obtain ⟨st₀, hst₀, rfl⟩ := Option.map_eq_some_iff.mp hst
      exact h.primary
    · obtain ⟨st₀, hst₀, rfl⟩ := Option.map_eq_some_iff.mp hst
      exact absurd hpromoted (by simp [Standby.follow, henabled st₀ hst₀])
  | promote =>
    refine ⟨h.primary, fun st hst => ?_, fun st hst _ => ?_⟩
    · obtain ⟨st₀, hst₀, rfl⟩ := Option.map_eq_some_iff.mp hst
      exact h.image st₀ hst₀
    · obtain ⟨st₀, hst₀, rfl⟩ := Option.map_eq_some_iff.mp hst
      exact (hf.follows st₀ hst₀).upkept (henabled st₀ hst₀) (h.image st₀ hst₀) (htakes st₀ hst₀)
  | standby op =>
    refine ⟨h.primary, fun st hst => ?_, fun st hst hpromoted => ?_⟩
    · obtain ⟨st₀, hst₀, rfl⟩ := Option.map_eq_some_iff.mp hst
      exact h.image st₀ hst₀
    · obtain ⟨st₀, hst₀, rfl⟩ := Option.map_eq_some_iff.mp hst
      have hcall := henabled st₀ hst₀
      rw [if_pos hpromoted] at hcall
      exact (h.standby st₀ hst₀ hpromoted).next hcall (htakes st₀ hst₀ hpromoted)

theorem entrusted_of_reachable {masterKey : MasterKey} {config : EvidenceStoreConfig} {pair : Pair}
    (h : ((system masterKey config).restrict Pair.TakesOver).Reachable pair) :
    Entrusted pair := by
  refine h.invariant Entrusted ?_ ?_
  · rintro pair rfl
    refine ⟨upkept_start masterKey config, fun st hst => ?_, fun st hst => ?_⟩
    · cases hst
    · cases hst
  · rintro pair event pair' hr hpair ⟨⟨henabled, rfl⟩, htakes⟩
    exact hpair.next (following_of_reachable hr.of_restrict) henabled htakes

/-- In every run, a row of a live scope that the primary read when the image was taken is still
read by the primary, and by the standby just if the key of its scope is at hand. In every run in
which the standby takes over with the keys at hand, what it ingests and what it was handed reads
back, also once it has been closed and opened again. -/
theorem standby_serves {masterKey : MasterKey} {config : EvidenceStoreConfig} {pair : Pair}
    {st : Standby} (hst : pair.standby = some st) :
    ((system masterKey config).Reachable pair → st.promoted = false →
      ∀ id row, st.books.store.db.evidence.lookup id = some row → st.image.live row.scopeId →
        (st.KeyAtHand row.scopeId →
          (st.books.store.readBody id).2 = (st.image.store.readBody id).2) ∧
        ∀ body, (st.image.store.readBody id).2 = .ok body →
          ((st.books.store.readBody id).2 = .ok body ↔ st.KeyAtHand row.scopeId) ∧
          (pair.primary.live row.scopeId → (pair.primary.store.readBody id).2 = .ok body)) ∧
    (((system masterKey config).restrict Pair.TakesOver).Reachable pair →
      st.promoted = true → Readable st.books ∧ Readable (st.books.next .reopen)) := by
  constructor
  · intro h hpromoted id row hrow hlive
    have hf := (following_of_reachable h).follows st hst
    obtain ⟨hsame, hiff⟩ := hf.readBody hpromoted hrow hlive
    refine ⟨hsame, fun body hread => ⟨hiff body hread, fun hprimary => ?_⟩⟩
    rw [(hf.mirrors hpromoted).db] at hrow
    obtain ⟨hrow', hreads⟩ := hf.steady id row body hrow hprimary hread
    exact hreads.readBody hrow'
  · intro h hpromoted
    have hkept := (entrusted_of_reachable h).standby st hst hpromoted
    exact ⟨hkept.readable, hkept.reopen.readable⟩

theorem of_standby (P : Standby → Prop) [DecidablePred P] {standby : Option Standby}
    (h : (standby.all fun st => P st) = true) (st : Standby) (hst : standby = some st) : P st := by
  rw [hst] at h
  exact of_decide_eq_true h

/-- The standby is opened first; a scope is then provisioned on the primary, and its evidence
ingested and shipped. -/
def openedEarly : List Event :=
  [.openStandby sampleConfig, .primary (.ensureScopeDek 1 0),
    .primary (.ingest anyFirst 1 [1, 2, 3] none .useful none 0), .ship]

/-- The key came with the image and is in no cache of the standby, which derives the legacy one. -/
theorem standby_misses_new_key : ¬ ∀ (masterKey : MasterKey) (config : EvidenceStoreConfig)
    (pair : Pair) (st : Standby), (system masterKey config).Reachable pair →
      pair.standby = some st →
      (st.promoted = false → ∀ id row body, st.books.store.db.evidence.lookup id = some row →
        pair.primary.live row.scopeId → (pair.primary.store.readBody id).2 = .ok body →
        (st.books.store.readBody id).2 = .ok body) ∧
      (st.promoted = true → Readable st.books ∧ Readable (st.books.next .reopen)) := by
  intro h
  have hreach : (system 7 sampleConfig).Reachable
      (openedEarly.foldl next ⟨.start 7 sampleConfig, none⟩) :=
    Legal.reachable ⟨trivial, trivial, trivial, of_standby _ (by decide +kernel), trivial⟩
      (.init rfl)
  obtain ⟨st, hst⟩ : ∃ st,
      (openedEarly.foldl next ⟨.start 7 sampleConfig, none⟩).standby = some st :=
    Option.isSome_iff_exists.mp (by decide +kernel)
  have hrow : (openedEarly.foldl next ⟨.start 7 sampleConfig, none⟩).standby.bind
      (fun st => (st.books.store.db.evidence.lookup ⟨2⟩).map EvidenceRow.scopeId) = some 1 := by
    decide +kernel
  rw [hst, Option.bind_some] at hrow
  obtain ⟨row, hlookup, hscope⟩ := Option.map_eq_some_iff.mp hrow
  have hlive : (openedEarly.foldl next ⟨.start 7 sampleConfig, none⟩).primary.live 1 := by
    decide +kernel
  have hpromoted := of_standby (·.promoted = false) (by decide +kernel) st hst
  have hread := (h 7 sampleConfig _ st hreach hst).1 hpromoted ⟨2⟩ row [1, 2, 3] hlookup
    (hscope ▸ hlive) (eq_ok_of_toOption (by decide +kernel))
  have hmissed : (openedEarly.foldl next ⟨.start 7 sampleConfig, none⟩).standby.bind
      (fun st => (st.books.store.readBody ⟨2⟩).2.toOption) = none := by decide +kernel
  rw [hst, Option.bind_some, hread] at hmissed
  cases hmissed

/-- The scope is provisioned before the standby is opened, which reads, takes over, ingests and
is opened again. -/
def openedLate : List Event :=
  [.primary (.ensureScopeDek 1 0), .openStandby sampleConfig,
    .primary (.ingest anyFirst 1 [1, 2, 3] none .useful none 0), .ship, .standby (.readBody ⟨2⟩),
    .promote, .standby (.ensureScopeDek 1 0),
    .standby (.ingest anyFirst 1 [4, 5] none .useful none 0), .standby .reopen]

theorem standby_serves_late : ∃ st,
    (openedLate.foldl next ⟨.start 7 sampleConfig, none⟩).standby = some st ∧
      (st.books.store.readBody ⟨2⟩).2 = .ok [1, 2, 3] ∧
      ((st.books.next .reopen).store.readBody ⟨4⟩).2 = .ok [4, 5] := by
  have hidle : Idle (Books.start 7 sampleConfig).store.db 1 := by
    refine ⟨fun _ => rfl, fun r hr => ?_, fun _ => rfl, fun id row hrow => ?_, fun id row hrow => ?_⟩
    · cases hr
    · cases hrow
    · cases hrow
  have hreach : ((system 7 sampleConfig).restrict Pair.TakesOver).Reachable
      (openedLate.foldl next ⟨.start 7 sampleConfig, none⟩) := by
    refine Legal.reachable_restrict ⟨⟨trivial, fun _ _ _ _ => hidle⟩, ⟨trivial, trivial⟩,
      ⟨trivial, trivial⟩, ⟨of_standby _ (by decide +kernel), trivial⟩, ⟨?_, ?_⟩,
      ⟨of_standby _ (by decide +kernel), ?_⟩, ⟨?_, ?_⟩, ⟨?_, fun _ _ _ => trivial⟩,
      ⟨?_, fun _ _ _ => trivial⟩, trivial⟩ (.init rfl)
    · intro st hst
      rw [of_standby (·.promoted = false) (by decide +kernel) st hst]
      trivial
    · intro st hst hpromoted
      rw [of_standby (·.promoted = false) (by decide +kernel) st hst] at hpromoted
      cases hpromoted
    · intro st hst scope _ key hkey
      have hdeks := of_standby (fun st => ∀ e ∈ st.image.store.db.scopeDeks.rows,
        st.opened.dekFor e.1 = st.image.store.dekFor e.1) (by decide +kernel) st hst
      obtain ⟨row, hrow, -⟩ := Option.bind_eq_some_iff.mp hkey
      exact .inr ((hdeks (scope, row) (Table.mem_rows_iff.mpr hrow)).trans hkey)
    · intro st hst
      rw [of_standby (·.promoted = true) (by decide +kernel) st hst]
      trivial
    · intro st hst _ _ hcache
      have hcached := of_standby (fun st => st.books.store.scopeKeys.lookup 1 ≠ none)
        (by decide +kernel) st hst
      exact absurd hcache hcached
    · intro st hst
      rw [of_standby (·.promoted = true) (by decide +kernel) st hst]
      trivial
    · intro st hst
      rw [of_standby (·.promoted = true) (by decide +kernel) st hst]
      trivial
  obtain ⟨st, hst⟩ : ∃ st,
      (openedLate.foldl next ⟨.start 7 sampleConfig, none⟩).standby = some st :=
    Option.isSome_iff_exists.mp (by decide +kernel)
  obtain ⟨hread, hreopened⟩ := (standby_serves hst).2 hreach
    (of_standby (·.promoted = true) (by decide +kernel) st hst)
  refine ⟨st, hst, hread.bodies ⟨2⟩ 1 [1, 2, 3] ?_ ?_, hreopened.bodies ⟨4⟩ 1 [4, 5] ?_ ?_⟩
  · exact of_standby (fun st => st.books.ledger.bodies.lookup ⟨2⟩ = some (1, [1, 2, 3]))
      (by decide +kernel) st hst
  · exact of_standby (fun st => st.books.live 1) (by decide +kernel) st hst
  · exact of_standby (fun st => st.books.ledger.bodies.lookup ⟨4⟩ = some (1, [4, 5]))
      (by decide +kernel) st hst
  · exact of_standby (fun st => st.books.live 1) (by decide +kernel) st hst

end Knowledge.Evidence
