import Deeplog.Database.Accounts
import Deeplog.Database.Handles
import Deeplog.Database.PlainCodec

/-!
# No lost updates

Every operation works on the entries that the one before has left, as long as the current revision
is not replaced while another handle has seen it. Replacing it is what unlinking does; a handle
that caches that revision does not notice, and stores again what has been removed.
-/

namespace Deeplog.Database

namespace View

variable {v v' : View} {handle other : Nat} {cached base last : Contents} {op : Operation}
  {action : Action}

/-- No other handle caches the current revision. -/
def Alone (v : View) (handle : Nat) : Prop :=
  ∀ other ≠ handle, ∀ cached ∈ v.cached other, cached.version ≠ v.stored.version

/-- Neither the revision nor the rotation of a new bus overflows. -/
def Counted : Action → View → Prop
  | .operate handle op, v => Room (.operate handle op) v ∧
    ∀ cached ∈ v.cached handle, op.addsBuses = true →
      ∀ c ∈ (op.plan (v.basis cached)).stores, c.liveBuses = c.messageBuses
  | _, _ => True

instance (action : Action) (v : View) : Decidable (Counted action v) :=
  match action with
  | .operate handle op => inferInstanceAs
      (Decidable (Room _ v ∧ ∀ cached ∈ v.cached handle, op.addsBuses = true → _))
  | .openFile | .clone _ => .isTrue trivial

/-- Entries are removed under the current revision only if no other handle has seen it. -/
def Unseen : Action → View → Prop
  | .operate handle op, v =>
    ∀ cached ∈ v.cached handle, op.Unlinks (v.basis cached) → v.Alone handle
  | _, _ => True

theorem Counted.room (h : Counted action v) : Room action v := by
  cases action with
  | operate handle op => exact h.1
  | openFile | clone => trivial

/-- Caches of the current revision have the current entries, which are those that have been
left. -/
structure Current (v : View) : Prop where
  fresh : ∀ handle, ∀ cached ∈ v.cached handle,
    Versioned.Fresh Contents.version Contents.SameEntries v.stored cached
  left_containers : v.left.recordContainers = v.stored.recordContainers
  left_buses : v.left.messageBuses = v.stored.liveBuses

theorem basis_entries
    (h : Versioned.Fresh Contents.version Contents.SameEntries v.stored cached) :
    (v.basis cached).SameEntries v.stored :=
  (Contents.arrange_same _).2.trans (h.refresh fun _ => Contents.SameEntries.rfl)

/-- What a handle fetches is what has been left. -/
theorem Current.basis_left (h : v.Current) (hcached : v.cached handle = some cached) :
    (v.basis cached).recordContainers.Perm v.left.recordContainers ∧
      (v.basis cached).messageBuses.Perm v.left.messageBuses := by
  obtain ⟨hcontainers, hbuses⟩ := basis_entries (h.fresh handle cached hcached)
  rw [h.left_containers, h.left_buses, ← basis_live]
  exact ⟨hcontainers, hbuses⟩

theorem leaves_containers (op : Operation) (c : Contents) :
    (op.leaves c).recordContainers = c.recordContainers := by
  cases op <;> rfl

theorem leaves_live (op : Operation) (hlive : base.liveBuses = base.messageBuses) :
    (op.leaves base).messageBuses = base.messageBuses := by
  cases op with
  | pruneMessageBuses => exact hlive
  | _ => rfl

/-- Operations leave the buses that are not erased. -/
theorem leaves_buses (hlive : base.liveBuses = base.messageBuses)
    (hlast : last ∈ (op.plan base).stores.getLast?)
    (hsafe : op.addsBuses = true → last.liveBuses = last.messageBuses) :
    (op.leaves last).messageBuses = last.liveBuses := by
  cases hadds : op.addsBuses with
  | true =>
    cases op with
    | createMessageBus => exact (hsafe hadds).symm
    | _ => cases hadds
  | false =>
    have hresult : op.result base = op.leaves last := by
      rw [Operation.result, Option.mem_def.mp hlast, Option.getD_some]
    have hknown := (plan_accounts op hlive).buses_known hadds
    have hrotation : ∀ mbm ∈ (op.leaves last).messageBuses, mbm.rotation ≠ 0 := by
      intro mbm hmbm
      have hbase := hknown (hresult ▸ hmbm)
      rw [← hlive] at hbase
      exact Contents.rotation_ne_zero hbase
    cases op with
    | pruneMessageBuses => rfl
    | _ => exact (Contents.liveBuses_eq hrotation).symm

theorem Current.attach (h : v.Current)
    (hfresh : Versioned.Fresh Contents.version Contents.SameEntries v.stored cached) :
    (v.attach cached).Current := by
  refine ⟨fun handle c hc => ?_, h.left_containers, h.left_buses⟩
  rcases cached_attach hc with hold | rfl
  · exact h.fresh handle c hold
  · exact hfresh

/-- The contents that a handle has fetched are fresh. -/
theorem fresh_basis
    (h : Versioned.Fresh Contents.version Contents.SameEntries v.stored cached) :
    Versioned.Fresh Contents.version Contents.SameEntries v.stored (v.basis cached) :=
  ⟨(version_basis h.1).le, fun _ => basis_entries h⟩

/-- The caches behind an operation that replaces the current revision. -/
theorem Current.fresh_inPlace (h : v.Current) (hok : v.Ok)
    (hcached : v.cached handle = some cached) (hop : op.inPlace)
    (hsafe : v.Alone handle ∨
      ∀ c ∈ (op.plan (v.basis cached)).stores, c.SameEntries (v.basis cached)) :
    ∀ other, ∀ m ∈ (v.operated handle op (v.basis cached)).cached other,
      Versioned.Fresh Contents.version Contents.SameEntries
        (v.operated handle op (v.basis cached)).stored m := by
  obtain ⟨c, hstores, hrev, -, hcache⟩ := plan_inPlace (v.basis cached) hop
  have hstored : (v.operated handle op (v.basis cached)).stored = c := by
    rw [View.operated, hstores]
    rfl
  have hversion : c.version = v.stored.version :=
    (Contents.version_eq_iff.mpr hrev).trans (version_basis (hok.cached_le handle cached hcached))
  intro other m hm
  rw [hstored]
  rcases cached_operated hm with ⟨-, hself⟩ | ⟨hne, hother⟩
  · rw [hcache m hself]
    exact .self (fun _ => Contents.SameEntries.rfl) c
  · obtain ⟨hle, hsame⟩ := h.fresh other m hother
    refine Versioned.Fresh.replace hle hversion fun hcurrent => ?_
    rcases hsafe with halone | hkept
    · exact absurd hcurrent (halone other hne m hother)
    · have hc := hkept c (hstores ▸ List.mem_cons_self)
      exact (hsame hcurrent).trans ((hc.trans (basis_entries (h.fresh handle cached hcached))).symm)

/-- The caches behind an operation that increases the revision. -/
theorem Current.fresh_next (h : v.Current) (hok : v.Ok) (hcached : v.cached handle = some cached)
    (hroom : Room (.operate handle op) v) (hop : op.inPlace = false) :
    ∀ other, ∀ m ∈ (v.operated handle op (v.basis cached)).cached other,
      Versioned.Fresh Contents.version Contents.SameEntries
        (v.operated handle op (v.basis cached)).stored m := by
  have hversion := hok.version_operated hcached hroom hop
  have hold : ∀ m, Versioned.Fresh Contents.version Contents.SameEntries v.stored m →
      Versioned.Fresh Contents.version Contents.SameEntries
        (v.operated handle op (v.basis cached)).stored m := by
    intro m hm
    cases hstores : (op.plan (v.basis cached)).stores with
    | nil =>
      rw [View.operated, hstores]
      exact hm
    | cons c rest =>
      rw [hstores, List.length_cons] at hversion
      exact Versioned.Fresh.publish hm.1 (by omega)
  intro other m hm
  rcases cached_operated hm with ⟨-, hself⟩ | ⟨-, hother⟩
  · obtain ⟨m', hm', hcache⟩ := plan_cache (v.basis cached) hop (basis_live v cached)
    cases hm'.symm.trans hself
    rcases hcache with rfl | ⟨last, hlast, hsame⟩
    · exact hold _ (fresh_basis (h.fresh handle cached hcached))
    · have hstored : (v.operated handle op (v.basis cached)).stored = last := by
        rw [View.operated, hlast]
        rfl
      rw [hstored]
      exact ⟨(Contents.version_eq_iff.mpr hsame.1).le, fun _ => hsame.2⟩
  · exact hold m (h.fresh other m hother)

theorem Current.operated (h : v.Current) (hok : v.Ok) (hcached : v.cached handle = some cached)
    (hcounted : Counted (.operate handle op) v) (hunseen : Unseen (.operate handle op) v) :
    (v.operated handle op (v.basis cached)).Current := by
  obtain ⟨hroom, hadds⟩ := hcounted
  have hleft : (v.operated handle op (v.basis cached)).left.recordContainers =
        (v.operated handle op (v.basis cached)).stored.recordContainers ∧
      (v.operated handle op (v.basis cached)).left.messageBuses =
        (v.operated handle op (v.basis cached)).stored.liveBuses := by
    cases hlast : (op.plan (v.basis cached)).stores.getLast? with
    | none =>
      rw [View.operated, hlast]
      exact ⟨h.left_containers, h.left_buses⟩
    | some last =>
      rw [View.operated, hlast]
      refine ⟨leaves_containers op last, leaves_buses (basis_live v cached) hlast fun hop => ?_⟩
      exact hadds cached hcached hop last (List.mem_of_getLast? hlast)
  refine ⟨?_, hleft.1, hleft.2⟩
  cases hop : op.inPlace with
  | true =>
    refine h.fresh_inPlace hok hcached hop ?_
    by_cases hunlinks : op.Unlinks (v.basis cached)
    · exact .inl (hunseen cached hcached hunlinks)
    · exact .inr ((Operation.unlinks_iff hop (basis_live v cached)).mpr hunlinks)
  | false => exact h.fresh_next hok hcached hroom hop

theorem Current.step {codec : ContentsCodec} (h : v.Current) (hok : v.Ok)
    (hcounted : Counted action v) (hunseen : Unseen action v)
    (hstep : View.step codec action v = some v') : v'.Current := by
  cases action with
  | openFile =>
    rw [View.step] at hstep
    split at hstep <;> cases hstep
    refine h.attach (fresh_basis ⟨Nat.zero_le _, fun hzero => ?_⟩)
    rw [hok.stored_zero hzero.symm]
    exact .rfl
  | clone handle =>
    obtain ⟨cached, hcached, rfl⟩ := Option.map_eq_some_iff.mp hstep
    exact h.attach (h.fresh handle cached hcached)
  | operate handle op =>
    obtain ⟨cached, hcached, hstep⟩ := Option.bind_eq_some_iff.mp hstep
    split at hstep <;> cases hstep
    exact h.operated hok hcached hcounted hunseen

/-- A handle that has seen a revision does not notice that it is replaced. -/
theorem Current.unseen (h : v.Current) (hok : v.Ok) (hcached : v.cached handle = some cached)
    (hleft : ∀ other, ∀ m ∈ (v.operated handle op (v.basis cached)).cached other,
      ((v.operated handle op (v.basis cached)).basis m).recordContainers.Perm
          (v.operated handle op (v.basis cached)).left.recordContainers ∧
        ((v.operated handle op (v.basis cached)).basis m).messageBuses.Perm
          (v.operated handle op (v.basis cached)).left.messageBuses) :
    Unseen (.operate handle op) v := by
  intro cached' hcached' hunlinks
  cases hcached.symm.trans hcached'
  have hop := hunlinks.inPlace
  by_contra halone
  refine (Operation.unlinks_iff hop (basis_live v cached)).mp ?_ hunlinks
  obtain ⟨other, hne, m, hm, hcurrent⟩ : ∃ other, other ≠ handle ∧
      ∃ m ∈ v.cached other, m.version = v.stored.version := by
    simpa [Alone] using halone
  obtain ⟨c, hstores, hrev, -, -⟩ := plan_inPlace (v.basis cached) hop
  have hversion : c.version = v.stored.version :=
    (Contents.version_eq_iff.mpr hrev).trans (version_basis (hok.cached_le handle cached hcached))
  have hkept : (v.operated handle op (v.basis cached)).cached other = some m := by
    rw [View.cached, View.operated, List.getElem?_set_ne hne.symm]
    exact hm
  have hbasis : (v.operated handle op (v.basis cached)).basis m = m.arrange := by
    rw [View.basis, View.operated, hstores, Versioned.refresh, if_neg]
    exact (hcurrent.trans hversion.symm).ge.not_gt
  have hbuses : (op.leaves c).messageBuses = c.liveBuses := by
    refine leaves_buses (basis_live v cached) (hstores ▸ rfl) fun hadds => ?_
    cases op with
    | createMessageBus => cases hop
    | _ => cases hadds
  have hm' := hleft other m hkept
  rw [hbasis, View.operated, hstores] at hm'
  obtain ⟨hcontainers, hmessages⟩ := hm'
  have hc : c.SameEntries m.arrange := by
    refine ⟨?_, ?_⟩
    · exact leaves_containers op c ▸ hcontainers.symm
    · rw [Contents.liveBuses_arrange, ← hbuses]
      exact hmessages.symm
  intro c' hc'
  cases List.mem_singleton.mp (hstores ▸ hc')
  have hbase := basis_entries (h.fresh handle cached hcached)
  have hstored := ((h.fresh other m hm).2 hcurrent).trans hbase.symm
  exact (hc.trans (Contents.arrange_same m).2).trans hstored

end View

/-! ## Runs -/

namespace RootFile

variable {codec : ContentsCodec} {db db' db₀ : RootFile} {action : Action}
  {actions : List Action} {handle : Nat}

/-- Whichever operation comes next fetches the entries that have been left, and leaves of them
and adds to them what it should. -/
structure Continues (codec : ContentsCodec) (db : RootFile) : Prop where
  fetches : ∀ handle, ∀ cached ∈ db.cached handle, ∃ base,
    codec.fetchContentImpl db.file cached = some base ∧
      base.recordContainers.Perm db.left.recordContainers ∧
      base.messageBuses.Perm db.left.messageBuses
  accounts : ∀ handle op db', step codec (.operate handle op) db = some db' →
    ∃ base, db.fetched codec handle = some base ∧ op.Accounts base db'.left

theorem Sound.operate (h : db.Sound codec) {op : Operation}
    (hstep : RootFile.step codec (.operate handle op) db = some db') :
    ∃ cached, db.cached handle = some cached ∧
      storeAll codec db.file (op.plan (db.basis cached)).stores = some db'.file ∧
      db'.toView = db.operated handle op (db.basis cached) := by
  rw [RootFile.step, h.fetched] at hstep
  obtain ⟨base, hbase, hstep⟩ := Option.bind_eq_some_iff.mp hstep
  obtain ⟨cached, hcached, rfl⟩ := Option.map_eq_some_iff.mp hbase
  obtain ⟨f', hstore, rfl⟩ := Option.map_eq_some_iff.mp hstep
  exact ⟨cached, hcached, hstore, rfl⟩

theorem Sound.continues (h : db.Sound codec) (hcurrent : db.toView.Current) :
    db.Continues codec where
  fetches handle cached hcached := ⟨_, h.fetch hcached, hcurrent.basis_left hcached⟩
  accounts handle op db' hstep := by
    obtain ⟨cached, hcached, -, hview⟩ := h.operate hstep
    have hfetched : db.fetched codec handle = some (db.basis cached) := by
      rw [h.fetched, hcached, Option.map_some]
    refine ⟨_, hfetched, ?_⟩
    have hleft : db'.left = (db.operated handle op (db.basis cached)).left := by rw [← hview]
    have haccounts := plan_accounts op (View.basis_live db.toView cached)
    rw [Operation.result] at haccounts
    rw [hleft, View.operated]
    cases hlast : (op.plan (db.basis cached)).stores.getLast? with
    | none =>
      rw [hlast, Option.getD_none] at haccounts
      obtain ⟨hcontainers, hbuses⟩ := hcurrent.basis_left hcached
      refine haccounts.of_perm ?_ ?_
      · rw [View.leaves_containers]
        exact hcontainers.symm
      · rw [View.leaves_live op (View.basis_live db.toView cached)]
        exact hbuses.symm
    | some last =>
      rw [hlast, Option.getD_some] at haccounts
      exact haccounts

theorem create_current (h : create codec = some db) : db.toView.Current := by
  obtain ⟨opened, hopened, rfl⟩ := Option.map_eq_some_iff.mp h
  obtain ⟨f, hinit, rfl⟩ := Option.map_eq_some_iff.mp hopened
  refine ⟨?_, rfl, rfl⟩
  rintro (_ | handle) cached ⟨⟩
  exact .self (fun _ => Contents.SameEntries.rfl) _

theorem Sound.unseen (h : db.Sound codec) (hcurrent : db.toView.Current)
    (hcounted : View.Counted action db.toView) (hstep : RootFile.step codec action db = some db')
    (hcontinues : db'.Continues codec) : View.Unseen action db.toView := by
  have hsound := h.step hcounted.room hstep
  cases action with
  | openFile | clone => trivial
  | operate handle op =>
    obtain ⟨cached, hcached, -, hview⟩ := h.operate hstep
    refine hcurrent.unseen h.ok hcached fun other m hm => ?_
    rw [← hview] at hm ⊢
    obtain ⟨base, hfetch, hleft⟩ := hcontinues.fetches other m hm
    cases (hsound.fetch hm).symm.trans hfetch
    exact hleft

theorem Sound.unseen_run (h : db.Sound codec) (hcurrent : db.toView.Current)
    (hcounted : Runs.Along (RootFile.step codec)
      (fun action db => View.Counted action db.toView) actions db)
    (hrun : Runs.run (RootFile.step codec) actions db = some db')
    (hcontinues : ∀ before after db', actions = before ++ after →
      Runs.run (RootFile.step codec) before db = some db' → db'.Continues codec) :
    Runs.Along (RootFile.step codec) (fun action db => View.Unseen action db.toView)
      actions db := by
  induction actions generalizing db with
  | nil => trivial
  | cons action actions ih =>
    obtain ⟨next, hstep, hrest⟩ := Runs.run_cons_eq_some.mp hrun
    have hnext : next.Continues codec :=
      hcontinues [action] actions next rfl (Runs.run_cons_eq_some.mpr ⟨next, hstep, rfl⟩)
    have hunseen := h.unseen hcurrent hcounted.1 hstep hnext
    refine ⟨hunseen, fun next' hstep' => ?_⟩
    cases hstep.symm.trans hstep'
    have hview : View.step codec action db.toView = some next.toView := by
      rw [← h.step_toView, hstep]
      rfl
    refine ih (h.step hcounted.1.room hstep) (hcurrent.step h.ok hcounted.1 hunseen hview)
      (hcounted.2 next hstep) hrest fun before after db' heq hbefore => ?_
    exact hcontinues (action :: before) after db' (congrArg _ heq)
      (Runs.run_cons_eq_some.mpr ⟨next, hstep, hbefore⟩)

theorem Sound.current_run (h : db.Sound codec) (hcurrent : db.toView.Current)
    (hcounted : Runs.Along (RootFile.step codec)
      (fun action db => View.Counted action db.toView) actions db)
    (hunseen : Runs.Along (RootFile.step codec)
      (fun action db => View.Unseen action db.toView) actions db)
    (hrun : Runs.run (RootFile.step codec) actions db = some db') :
    db'.Sound codec ∧ db'.toView.Current := by
  have hstep : ∀ action (db db' : RootFile),
      View.Counted action db.toView ∧ View.Unseen action db.toView →
      db.Sound codec ∧ db.toView.Current → RootFile.step codec action db = some db' →
      db'.Sound codec ∧ db'.toView.Current := by
    rintro action db db' ⟨hcounted, hunseen⟩ ⟨hsound, hcurrent⟩ hstep
    have hview : View.step codec action db.toView = some db'.toView := by
      rw [← hsound.step_toView, hstep]
      rfl
    exact ⟨hsound.step hcounted.room hstep,
      hcurrent.step hsound.ok hcounted hunseen hview⟩
  have hstart : db.Sound codec ∧ db.toView.Current := ⟨h, hcurrent⟩
  have hend := Runs.invariant hstep (hcounted.and hunseen) hstart hrun
  exact hend

/-- One handle unlinks a bus that the other has seen. -/
def unlinkSeen : List Action :=
  [.openFile,
    .operate 0 (.createMessageBus (fun _ => [98, 117, 115]) [105, 100] mpscMagic 1 [.opened]),
    .operate 1 .fetchContent,
    .operate 0 (.unlinkAllMessageBuses fun _ => true)]

theorem unlinkSeen_view : Runs.run (View.step Plain.codec) unlinkSeen View.created = some {
    handles := [
      some { revision := 1 },
      some { revision := 1, messageBuses := [⟨[98, 117, 115], mpscMagic, [105, 100], 1, 1⟩] }]
    linked := true
    stored := { revision := 1 }
    left := { revision := 1 } } := by
  decide +kernel

theorem unlinkSeen_run : ∃ db₀ db, create Plain.codec = some db₀ ∧
    Runs.run (step Plain.codec) unlinkSeen db₀ = some db ∧ db.Sound Plain.codec ∧
    Runs.run (View.step Plain.codec) unlinkSeen View.created = some db.toView ∧
    Runs.Along (step Plain.codec) (fun action db => View.Counted action db.toView)
      unlinkSeen db₀ := by
  have hcounted : Runs.Along (View.step Plain.codec) View.Counted unlinkSeen View.created := by
    decide +kernel
  have hfits : Plain.codec.Fits {} := by decide +kernel
  obtain ⟨db₀, hcreate, hview⟩ := create_of_fits hfits
  have hsound := create_sound hcreate
  rw [← hview] at hcounted
  have hroom := hcounted.imp fun _ _ => View.Counted.room
  obtain ⟨db, hrun, hdb, hend⟩ := hsound.run_of_view hroom (hview ▸ unlinkSeen_view)
  refine ⟨db₀, db, hcreate, hrun, hend, hdb ▸ unlinkSeen_view, ?_⟩
  exact hsound.along_of_view (fun _ _ => View.Counted.room) hcounted

/-- In a run of any handles, every operation continues from what the one before has left if and
only if entries are never removed under a revision that another handle has seen. -/
theorem updates_kept_iff (hcreate : create codec = some db₀)
    (hrun : Runs.run (step codec) actions db₀ = some db)
    (hcounted : Runs.Along (step codec) (fun action db => View.Counted action db.toView)
      actions db₀) :
    (∀ before after db', actions = before ++ after →
        Runs.run (step codec) before db₀ = some db' → db'.Continues codec) ↔
      Runs.Along (step codec) (fun action db => View.Unseen action db.toView) actions db₀ := by
  have hsound := create_sound hcreate
  have hcurrent := create_current hcreate
  constructor
  · exact hsound.unseen_run hcurrent hcounted hrun
  · rintro hunseen before after db' rfl hbefore
    have ⟨hs, hc⟩ := hsound.current_run hcurrent (hcounted.append hbefore).1
      (hunseen.append hbefore).1 hbefore
    exact hs.continues hc

theorem updates_kept_iff_unlinkSeen : ∃ db₀ db, create Plain.codec = some db₀ ∧
    Runs.run (step Plain.codec) unlinkSeen db₀ = some db ∧
    ((∀ before after db', unlinkSeen = before ++ after →
        Runs.run (step Plain.codec) before db₀ = some db' → db'.Continues Plain.codec) ↔
      Runs.Along (step Plain.codec) (fun action db => View.Unseen action db.toView)
        unlinkSeen db₀) := by
  obtain ⟨db₀, db, hcreate, hrun, -, -, hcounted⟩ := unlinkSeen_run
  exact ⟨db₀, db, hcreate, hrun, updates_kept_iff hcreate hrun hcounted⟩

/-- The next operation of the other handle brings the unlinked bus back. -/
theorem updates_not_kept : ¬∀ (codec : ContentsCodec) (actions : List Action) (db₀ db : RootFile),
    create codec = some db₀ → Runs.run (step codec) actions db₀ = some db →
      db.Continues codec := by
  intro h
  obtain ⟨db₀, db, hcreate, hrun, hsound, hview, -⟩ := unlinkSeen_run
  have hcontinues := h Plain.codec unlinkSeen db₀ db hcreate hrun
  have hdb := Option.some.inj (hview.symm.trans unlinkSeen_view)
  have hcached : db.cached 1 = some
      { revision := 1, messageBuses := [⟨[98, 117, 115], mpscMagic, [105, 100], 1, 1⟩] } := by
    rw [hdb]
    rfl
  obtain ⟨base, hfetch, -, hbuses⟩ := hcontinues.fetches 1 _ hcached
  cases (hsound.fetch hcached).symm.trans hfetch
  rw [hdb] at hbuses
  exact absurd hbuses.length_eq (by decide +kernel)

end RootFile

end Deeplog.Database
