import Tsz.Bind.LexicalScopes

/-!
# The binder's tables represent scoping stores

The relation between the binder's tables and the store a scoping term builds, and one rule for
each of the binder's primitive steps. A rule says that the step succeeds and does to the tables
what its term does to the store.
-/

namespace Tsz.Bind

open Syntax Lexical

abbrev ScopeStore := Scoping.Store Declared Reference

theorem bindM_pure {α : Type} (a : α) (b : Binder) : (Pure.pure a : BindM α) b = some (a, b) := rfl

theorem bindM_set (b b' : Binder) : (set b : BindM Unit) b' = some ((), b) := rfl

def PendingReferenceFact.reference (r : PendingReferenceFact) : Reference :=
  ⟨r.span, r.name, r.meaning, r.isWriteAccess, r.typeQueryRoot⟩

/-- The declaration behind an identity of the file. -/
def declaredAt (file : FileId) (declarations : List BoundDeclaration) (id : DeclId) :
    Option Declared :=
  if id.file = file then declarations[id.index]?.map (·.declared) else none

def Scope.idsOf (scope : Scope) (name : String) : List DeclId :=
  (scope.names.lookup name).getD []

/-- A scope stands for a cell: the same parent, and under each name the same declarations. -/
structure RepresentsCell (file : FileId) (declarations : List BoundDeclaration) (scope : Scope)
    (cell : Scoping.Cell Declared) : Prop where
  parent : cell.parent = scope.parent.map (·.index)
  names : ∀ name, (scope.idsOf name).map (declaredAt file declarations) =
    (cell.entries.filter fun d => d.name = name).map some

/-- The binder's tables stand for a store. -/
structure Represents (hosts : List UnmodeledDeclarationHostFact) (b : Binder) (σ : ScopeStore) :
    Prop where
  hosts_eq : b.unmodeledDeclarationHosts = hosts
  length_eq : b.scopes.length = σ.cells.length
  cells : ∀ (i : Nat) (scope : Scope) (cell : Scoping.Cell Declared),
    b.scopes[i]? = some scope → σ.cells[i]? = some cell →
    RepresentsCell b.file b.declarations scope cell
  pending : b.referenceFacts.map (fun r => (r.scope.index, r.reference)) = σ.pending

def OwnerIs (b : Binder) (s : ScopeId) (owner : NodeId) : Prop :=
  ∃ scope, b.scopes[s.index]? = some scope ∧ scope.owner = some owner

/-- No scope disappears or changes its owner. -/
def KeepsOwners (b b' : Binder) : Prop :=
  ∀ (i : Nat) (scope : Scope), b.scopes[i]? = some scope →
    ∃ scope' : Scope, b'.scopes[i]? = some scope' ∧ scope'.owner = scope.owner

namespace KeepsOwners

theorem refl (b : Binder) : KeepsOwners b b := fun _ scope h => ⟨scope, h, rfl⟩

theorem trans {b b' b'' : Binder} (h : KeepsOwners b b') (h' : KeepsOwners b' b'') :
    KeepsOwners b b'' := by
  intro i scope hi
  obtain ⟨scope', hi', ho'⟩ := h i scope hi
  obtain ⟨scope'', hi'', ho''⟩ := h' i scope' hi'
  exact ⟨scope'', hi'', ho''.trans ho'⟩

theorem of_scopes_eq {b b' : Binder} (h : b'.scopes = b.scopes) : KeepsOwners b b' := by
  intro i scope hi
  exact ⟨scope, by rw [h, hi], rfl⟩

theorem ownerIs {b b' : Binder} (h : KeepsOwners b b') {s : ScopeId} {owner : NodeId}
    (ho : OwnerIs b s owner) : OwnerIs b' s owner := by
  obtain ⟨scope, hs, howner⟩ := ho
  obtain ⟨scope', hs', ho'⟩ := h _ scope hs
  exact ⟨scope', hs', ho'.trans howner⟩

end KeepsOwners

/-! ## Tables that change nothing a name can see -/

theorem declaredAt_append {file : FileId} {ds es : List BoundDeclaration} {id : DeclId}
    {d : Declared} (h : declaredAt file ds id = some d) : declaredAt file (ds ++ es) id = some d := by
  unfold declaredAt at h ⊢
  split at h
  · rename_i hfile
    obtain ⟨bd, hbd, rfl⟩ := Option.map_eq_some_iff.1 h
    have hlt := (List.getElem?_eq_some_iff.1 hbd).1
    simp [hfile, List.getElem?_append_left hlt, hbd]
  · cases h

theorem map_declaredAt_append {file : FileId} {ds es : List BoundDeclaration}
    {ids : List DeclId} {frame : List Declared}
    (h : ids.map (declaredAt file ds) = frame.map some) :
    ids.map (declaredAt file (ds ++ es)) = frame.map some := by
  induction ids generalizing frame with
  | nil => simpa using h
  | cons id ids ih =>
    cases frame with
    | nil => simp at h
    | cons d frame =>
      simp only [List.map_cons, List.cons.injEq] at h ⊢
      exact ⟨declaredAt_append h.1, ih h.2⟩

theorem RepresentsCell.append {file : FileId} {ds es : List BoundDeclaration} {scope : Scope}
    {cell : Scoping.Cell Declared} (h : RepresentsCell file ds scope cell) :
    RepresentsCell file (ds ++ es) scope cell :=
  ⟨h.parent, fun name => map_declaredAt_append (h.names name)⟩

/-- Tables that agree on scopes, declarations, references and hosts stand for the same store. -/
theorem Represents.congr {hosts : List UnmodeledDeclarationHostFact} {b b' : Binder}
    {σ : ScopeStore} (h : Represents hosts b σ) (hfile : b'.file = b.file)
    (hdecls : b'.declarations = b.declarations) (hscopes : b'.scopes = b.scopes)
    (hrefs : b'.referenceFacts = b.referenceFacts)
    (hhosts : b'.unmodeledDeclarationHosts = b.unmodeledDeclarationHosts) :
    Represents hosts b' σ where
  hosts_eq := hhosts.trans h.hosts_eq
  length_eq := by rw [hscopes, h.length_eq]
  cells := by
    rw [hscopes, hfile, hdecls]
    exact h.cells
  pending := by rw [hrefs, h.pending]

/-! ## Realization -/

variable {hosts : List UnmodeledDeclarationHostFact} {α β : Type}

/-- From tables for a store, the step succeeds and its result stands for the store after the
term; the given owner, if any, is the scope's. -/
def Realizes (hosts : List UnmodeledDeclarationHostFact) (owner : Option NodeId) (m : BindM α)
    (s : ScopeId) (t : Term) : Prop :=
  ∀ b σ, Represents hosts b σ → s.index < σ.cells.length → (∀ o ∈ owner, OwnerIs b s o) →
    ∃ a b', m b = some (a, b') ∧ Represents hosts b' (t.exec Declared.clashes s.index σ) ∧
      KeepsOwners b b'

/-- The step opens a scope inside `s` and returns it. -/
def Opens (hosts : List UnmodeledDeclarationHostFact) (m : BindM ScopeId) (s : ScopeId)
    (owner : Option NodeId) : Prop :=
  ∀ b σ, Represents hosts b σ → s.index < σ.cells.length →
    ∃ b', m b = some (⟨σ.cells.length⟩, b') ∧ Represents hosts b' (σ.opened s.index) ∧
      KeepsOwners b b' ∧ ∀ o ∈ owner, OwnerIs b' ⟨σ.cells.length⟩ o

namespace Realizes

variable {owner : Option NodeId} {s : ScopeId} {t t' : Term}

theorem weaken {m : BindM α} (h : Realizes hosts none m s t) : Realizes hosts owner m s t :=
  fun b σ hb hs _ => h b σ hb hs (by simp)

theorem pure (a : α) : Realizes hosts owner (Pure.pure a : BindM α) s .empty :=
  fun b _ hb _ _ => ⟨a, b, rfl, hb, .refl b⟩

theorem bind {m : BindM α} {k : α → BindM β} (hm : Realizes hosts owner m s t)
    (hk : ∀ a, Realizes hosts owner (k a) s t') :
    Realizes hosts owner (m >>= k) s (.seq t t') := by
  intro b σ hb hs ho
  obtain ⟨a, b₁, hrun₁, hb₁, hkeep₁⟩ := hm b σ hb hs ho
  have hgrow := (Scoping.exec_changes Declared.clashes t hs).grows
  obtain ⟨a₂, b₂, hrun₂, hb₂, hkeep₂⟩ :=
    hk a b₁ _ hb₁ (hs.trans_le hgrow) fun o hoo => hkeep₁.ownerIs (ho o hoo)
  refine ⟨a₂, b₂, ?_, hb₂, hkeep₁.trans hkeep₂⟩
  simp [Bind.bind, StateT.bind, hrun₁, hrun₂]

/-- A step no name can see may come first. -/
theorem after {m : BindM α} {k : α → BindM β} (hm : Realizes hosts owner m s .empty)
    (hk : ∀ a, Realizes hosts owner (k a) s t) : Realizes hosts owner (m >>= k) s t :=
  hm.bind hk

/-- A step no name can see may come last. -/
theorem before {m : BindM α} {k : α → BindM β} (hm : Realizes hosts owner m s t)
    (hk : ∀ a, Realizes hosts owner (k a) s .empty) : Realizes hosts owner (m >>= k) s t :=
  hm.bind hk

theorem map {m : BindM α} (f : α → β) (hm : Realizes hosts owner m s t) :
    Realizes hosts owner (f <$> m) s t := by
  rw [map_eq_pure_bind]
  exact hm.before fun a => .pure (f a)

/-- A scope is opened, something happens outside of it, then its inside is walked. -/
theorem nest {open' : BindM ScopeId} {m : ScopeId → BindM α} {k : ScopeId → α → BindM β}
    {inner : Option NodeId} (hopen : Opens hosts open' s inner)
    (hm : ∀ c, Realizes hosts owner (m c) s t)
    (hk : ∀ c a, Realizes hosts inner (k c a) c t') :
    Realizes hosts owner (open' >>= fun c => m c >>= k c) s (.block t t') := by
  intro b σ hb hs ho
  obtain ⟨b₁, hrun₁, hb₁, hkeep₁, howner⟩ := hopen b σ hb hs
  have hlen : σ.cells.length < (σ.opened s.index).cells.length := by simp [Scoping.Store.opened]
  obtain ⟨a, b₂, hrun₂, hb₂, hkeep₂⟩ :=
    hm ⟨σ.cells.length⟩ b₁ _ hb₁ (hs.trans hlen) fun o hoo => hkeep₁.ownerIs (ho o hoo)
  have hgrow := (Scoping.exec_changes Declared.clashes t (hs.trans hlen)).grows
  obtain ⟨a₃, b₃, hrun₃, hb₃, hkeep₃⟩ :=
    hk ⟨σ.cells.length⟩ a b₂ _ hb₂ (hlen.trans_le hgrow)
      fun o hoo => hkeep₂.ownerIs (howner o hoo)
  refine ⟨a₃, b₃, ?_, hb₃, (hkeep₁.trans hkeep₂).trans hkeep₃⟩
  simp [Bind.bind, StateT.bind, hrun₁, hrun₂, hrun₃]

theorem nest_inside {open' : BindM ScopeId} {k : ScopeId → BindM β} {inner : Option NodeId}
    (hopen : Opens hosts open' s inner) (hk : ∀ c, Realizes hosts inner (k c) c t) :
    Realizes hosts owner (open' >>= k) s (.block .empty t) := by
  have h : Realizes hosts owner (open' >>= fun c => (Pure.pure () : BindM Unit) >>= fun _ => k c)
      s (.block .empty t) := nest hopen (fun _ => .pure ()) fun c _ => hk c
  simpa using h

theorem asBody {m : BindM α} (h : Realizes hosts owner m s (.block t t')) :
    Realizes hosts owner m s (.body t t') := h

/-- A body scope is opened before the signature outside of it is bound. -/
theorem nest_signature {open' : BindM ScopeId} {m₁ m₂ m₃ : BindM Unit}
    {k : ScopeId → BindM β} {t₁ t₂ t₃ : Term} {inner : Option NodeId}
    (hopen : Opens hosts open' s inner) (h₁ : Realizes hosts owner m₁ s t₁)
    (h₂ : Realizes hosts owner m₂ s t₂) (h₃ : Realizes hosts owner m₃ s t₃)
    (hk : ∀ c, Realizes hosts inner (k c) c t) :
    Realizes hosts owner (open' >>= fun c => m₁ >>= fun _ => m₂ >>= fun _ => m₃ >>= fun _ => k c) s
      (.body (.seq t₁ (.seq t₂ t₃)) t) := by
  have h : Realizes hosts owner
      (open' >>= fun c => (m₁ >>= fun _ => m₂ >>= fun _ => m₃) >>= fun _ => k c) s
      (.block (.seq t₁ (.seq t₂ t₃)) t) :=
    nest hopen (fun _ => h₁.bind fun _ => h₂.bind fun _ => h₃) fun c _ => hk c
  simpa only [bind_assoc] using h.asBody

end Realizes

/-! ## Steps no name can see -/

section Steps

variable {owner : Option NodeId} {s c : ScopeId} {t : Term}

theorem realizes_modify {f : Binder → Binder} (hfile : ∀ b, (f b).file = b.file)
    (hdecls : ∀ b, (f b).declarations = b.declarations) (hscopes : ∀ b, (f b).scopes = b.scopes)
    (hrefs : ∀ b, (f b).referenceFacts = b.referenceFacts)
    (hhosts : ∀ b, (f b).unmodeledDeclarationHosts = b.unmodeledDeclarationHosts) :
    Realizes hosts owner (modify f : BindM Unit) s .empty :=
  fun b _ hb _ _ => ⟨(), f b, rfl,
    hb.congr (hfile b) (hdecls b) (hscopes b) (hrefs b) (hhosts b), .of_scopes_eq (hscopes b)⟩

theorem realizes_get {k : Binder → BindM β}
    (h : ∀ b, b.unmodeledDeclarationHosts = hosts → Realizes hosts owner (k b) s t) :
    Realizes hosts owner (get >>= k) s t := by
  intro b σ hb hs ho
  exact h b hb.hosts_eq b σ hb hs ho

theorem realizes_recordScope (node : NodeId) (scope : ScopeId) :
    Realizes hosts owner (recordScope node scope) s .empty :=
  realizes_modify (fun _ => rfl) (fun _ => rfl) (fun _ => rfl) (fun _ => rfl) fun _ => rfl

theorem realizes_modifyFlowFacts (f : PendingFlowFacts → PendingFlowFacts) :
    Realizes hosts owner (modifyFlowFacts f) s .empty :=
  realizes_modify (fun _ => rfl) (fun _ => rfl) (fun _ => rfl) (fun _ => rfl) fun _ => rfl

theorem realizes_recordExpandoInitializer (id : DeclId) :
    Realizes hosts owner (recordExpandoInitializer id) s .empty :=
  realizes_modify (fun _ => rfl) (fun _ => rfl) (fun _ => rfl) (fun _ => rfl) fun _ => rfl

theorem realizes_scopeAt : Realizes hosts owner (scopeAt s) s .empty := by
  intro b σ hb hs _
  have hlt : s.index < b.scopes.length := hb.length_eq ▸ hs
  refine ⟨b.scopes[s.index], b, ?_, hb, .refl b⟩
  simp [scopeAt, Bind.bind, StateT.bind, get, getThe, MonadStateOf.get, StateT.get, hlt,
    bindM_pure]

theorem realizes_ownerOf {o : NodeId} {k : NodeId → BindM β}
    (h : Realizes hosts (some o) (k o) s t) :
    Realizes hosts (some o) (ownerOf s >>= k) s t := by
  intro b σ hb hs ho
  obtain ⟨scope, hscope, howner⟩ := ho o rfl
  have hrun : ownerOf s b = some (o, b) := by
    simp [ownerOf, scopeAt, Bind.bind, StateT.bind, get, getThe, MonadStateOf.get, StateT.get,
      hscope, howner, bindM_pure]
  obtain ⟨a, b', hrun', hb', hkeep⟩ := h b σ hb hs ho
  exact ⟨a, b', by simp [Bind.bind, StateT.bind, hrun, hrun'], hb', hkeep⟩

theorem realizes_scopeAt_owned {o : NodeId} {k : Scope → BindM β}
    (h : ∀ scope, scope.owner = some o → Realizes hosts (some o) (k scope) s t) :
    Realizes hosts (some o) (scopeAt s >>= k) s t := by
  intro b σ hb hs ho
  obtain ⟨scope, hscope, howner⟩ := ho o rfl
  have hrun : scopeAt s b = some (scope, b) := by
    simp [scopeAt, Bind.bind, StateT.bind, get, getThe, MonadStateOf.get, StateT.get, hscope,
      bindM_pure]
  obtain ⟨a, b', hrun', hb', hkeep⟩ := h scope howner b σ hb hs ho
  exact ⟨a, b', by simp [Bind.bind, StateT.bind, hrun, hrun'], hb', hkeep⟩

theorem realizes_nearestScopeOwner {o : NodeId} {k : Option NodeId → BindM β}
    (h : Realizes hosts (some o) (k (some o)) s t) :
    Realizes hosts (some o) (nearestScopeOwner s >>= k) s t := by
  intro b σ hb hs ho
  obtain ⟨scope, hscope, howner⟩ := ho o rfl
  have hpos : 0 < b.scopes.length := (Nat.zero_le _).trans_lt (List.getElem?_eq_some_iff.1 hscope).1
  obtain ⟨n, hn⟩ := Nat.exists_eq_succ_of_ne_zero hpos.ne'
  have hrun : nearestScopeOwner s b = some (some o, b) := by
    simp [nearestScopeOwner, Bind.bind, StateT.bind, get, getThe, MonadStateOf.get, StateT.get,
      hn, nearestOwner, hscope, howner, bindM_pure]
  obtain ⟨a, b', hrun', hb', hkeep⟩ := h b σ hb hs ho
  exact ⟨a, b', by simp [Bind.bind, StateT.bind, hrun, hrun'], hb', hkeep⟩

theorem realizes_declareUnscoped (scope : ScopeId) (node : NodeId) (name : String) (span : Span)
    (kind : DeclarationKind) (meaning : Meaning) :
    Realizes hosts owner (declareUnscoped scope node name span kind meaning) s .empty := by
  intro b σ hb _ _
  refine ⟨_, _, rfl, ?_, .of_scopes_eq rfl⟩
  exact ⟨hb.hosts_eq, hb.length_eq, fun i sc cell hi hc => (hb.cells i sc cell hi hc).append,
    hb.pending⟩

/-- A change of a scope that keeps its parent, owner and names. -/
theorem realizes_updateScope {f : Scope → Scope} (hparent : ∀ sc, (f sc).parent = sc.parent)
    (howner : ∀ sc, (f sc).owner = sc.owner) (hnames : ∀ sc, (f sc).names = sc.names) :
    Realizes hosts owner (updateScope c f) s .empty := by
  intro b σ hb _ _
  refine ⟨(), _, rfl, ⟨hb.hosts_eq, ?_, ?_, hb.pending⟩, ?_⟩
  · simpa [Scoping.exec] using hb.length_eq
  · intro i sc cell hi hc
    simp only [List.getElem?_modify, Option.map_eq_map, Option.map_eq_some_iff] at hi
    obtain ⟨old, hold, rfl⟩ := hi
    have h := hb.cells i old cell hold hc
    refine ⟨?_, fun name => ?_⟩
    · rw [h.parent]
      split <;> simp [hparent]
    · rw [← h.names name]
      split <;> simp [Scope.idsOf, hnames]
  · intro i sc hi
    refine ⟨_, by simp [List.getElem?_modify, hi]; rfl, ?_⟩
    split <;> simp [howner]

/-! ## References and declarations -/

theorem realizes_recordReference (r : PendingReferenceFact) (h : r.scope = s) :
    Realizes hosts owner (recordReference r) s (.refer r.reference) := by
  intro b σ hb _ _
  refine ⟨(), _, rfl, ⟨hb.hosts_eq, hb.length_eq, hb.cells, ?_⟩, .of_scopes_eq rfl⟩
  simp [Scoping.exec, Scoping.Store.referred, ← hb.pending, h]

/-- The identity a new declaration gets stands for it. -/
theorem declaredAt_new (file : FileId) (ds : List BoundDeclaration) (d : BoundDeclaration) :
    declaredAt file (ds ++ [d]) ⟨file, ds.length⟩ = some d.declared := by
  simp [declaredAt]

theorem RepresentsCell.insert {file : FileId} {ds : List BoundDeclaration} {scope : Scope}
    {cell : Scoping.Cell Declared} (h : RepresentsCell file ds scope cell) {id : DeclId}
    {d : Declared} (hid : declaredAt file ds id = some d) :
    RepresentsCell file ds
      { scope with names := scope.names.insert d.name (scope.idsOf d.name ++ [id]) }
      { cell with entries := cell.entries ++ [d] } where
  parent := h.parent
  names name := by
    by_cases hname : name = d.name
    · subst hname
      simp [Scope.idsOf, hid, ← h.names]
    · have hne : d.name ≠ name := Ne.symm hname
      simp [Scope.idsOf, AList.lookup_insert_ne hname, hne, ← h.names]

theorem realizes_declare (node : NodeId) (name : String) (span : Span)
    (kind : DeclarationKind) (meaning : Meaning) :
    Realizes hosts owner (declare s node name span kind meaning) s
      (.declare ⟨node, name, span, kind, meaning⟩) := by
  intro b σ hb hs _
  let d : BoundDeclaration := ⟨⟨b.file, b.declarations.length⟩, s, node, name, span, kind, meaning⟩
  have hlt : s.index < b.scopes.length := hb.length_eq ▸ hs
  have hsome : b.scopes[s.index]? = some b.scopes[s.index] := List.getElem?_eq_getElem hlt
  refine ⟨d.id, { b with
    declarations := b.declarations ++ [d]
    scopes := b.scopes.modify s.index fun scope => { scope with
      names := scope.names.insert name (scope.idsOf name ++ [d.id]) } }, ?_, ?_, ?_⟩
  · simp [declare, declareUnscoped, scopeAt, updateScope, Bind.bind, StateT.bind, get, getThe,
      MonadStateOf.get, StateT.get, bindM_set, modify, modifyGet, MonadStateOf.modifyGet,
      StateT.modifyGet, bindM_pure, hsome, Scope.idsOf, d]
  · refine ⟨hb.hosts_eq, by simpa [Scoping.exec, Scoping.Store.update] using hb.length_eq, ?_,
      hb.pending⟩
    intro i scope cell hi hc
    simp only [Scoping.exec, Scoping.Store.update, List.getElem?_modify, Option.map_eq_map,
      Option.map_eq_some_iff] at hi hc
    obtain ⟨scope, hscope, rfl⟩ := hi
    obtain ⟨cell, hcell, rfl⟩ := hc
    have h : RepresentsCell b.file (b.declarations ++ [d]) scope cell :=
      (hb.cells i scope cell hscope hcell).append
    split
    · exact h.insert (declaredAt_new b.file b.declarations d)
    · exact h
  · intro i scope hi
    refine ⟨_, by simp [List.getElem?_modify, hi]; rfl, ?_⟩
    split <;> rfl

/-- The duplicate test of a parameter sees exactly the clashing declarations of the cell. -/
theorem RepresentsCell.duplicate_iff {file : FileId} {ds : List BoundDeclaration} {scope : Scope}
    {cell : Scoping.Cell Declared} (h : RepresentsCell file ds scope cell) (d : Declared) :
    ((scope.idsOf d.name).any fun id =>
        (ds[id.index]?).any fun declaration => declaration.kind = d.kind) =
      cell.entries.any d.clashes := by
  have key : ∀ (ids : List DeclId) (frame : List Declared),
      ids.map (declaredAt file ds) = frame.map some →
      (ids.any fun id => (ds[id.index]?).any fun declaration => declaration.kind = d.kind) =
        frame.any fun e => e.kind = d.kind := by
    intro ids
    induction ids with
    | nil =>
      intro frame hmap
      cases frame with
      | nil => rfl
      | cons e frame => simp at hmap
    | cons id ids ih =>
      intro frame hmap
      cases frame with
      | nil => simp at hmap
      | cons e frame =>
        simp only [List.map_cons, List.cons.injEq] at hmap
        have hid : (ds[id.index]?).map (·.declared) = some e := by
          have := hmap.1
          unfold declaredAt at this
          split at this
          · exact this
          · cases this
        obtain ⟨bd, hbd, rfl⟩ := Option.map_eq_some_iff.1 hid
        simp only [List.any_cons, hbd, Option.any_some, ih frame hmap.2]
        rfl
  rw [key _ _ (h.names d.name), List.any_filter]
  congr 1
  funext e
  simp [Declared.clashes, eq_comm]

theorem realizes_declareParameter (node : NodeId) (name : String) (span : Span)
    (kind : DeclarationKind) (meaning : Meaning) :
    Realizes hosts owner (declareParameter s node name span kind meaning) s
      (.declareOnce ⟨node, name, span, kind, meaning⟩) := by
  intro b σ hb hs ho
  let d : Declared := ⟨node, name, span, kind, meaning⟩
  have hlt : s.index < b.scopes.length := hb.length_eq ▸ hs
  have hscope : b.scopes[s.index]? = some b.scopes[s.index] := List.getElem?_eq_getElem hlt
  have hcell : σ.cells[s.index]? = some σ.cells[s.index] := List.getElem?_eq_getElem hs
  have hdup := (hb.cells _ _ _ hscope hcell).duplicate_iff d
  have hrun : declareParameter s node name span kind meaning b =
      (if σ.cells[s.index].entries.any d.clashes then
        declareUnscoped s node name span kind meaning
      else declare s node name span kind meaning) b := by
    rw [← hdup]
    simp [declareParameter, scopeAt, Bind.bind, StateT.bind, get, getThe, MonadStateOf.get,
      StateT.get, hscope, bindM_pure, Scope.idsOf, d, -List.any_eq_true]
    congr
  have hexec : ∀ keep : List Declared → List Declared,
      keep σ.cells[s.index].entries = Scoping.keepFirst Declared.clashes σ.cells[s.index].entries d →
      σ.update s.index (Scoping.keepFirst Declared.clashes · d) = σ.update s.index keep := by
    intro keep hkeep
    simp only [Scoping.Store.update, Scoping.Store.mk.injEq, and_true]
    apply List.ext_getElem?
    intro i
    simp only [List.getElem?_modify]
    by_cases hi : s.index = i
    · subst hi
      simp [hcell, hkeep]
    · simp [hi]
  rw [hrun]
  by_cases hclash : σ.cells[s.index].entries.any d.clashes
  · have h : Realizes hosts owner (declareUnscoped s node name span kind meaning) s .empty :=
      realizes_declareUnscoped s node name span kind meaning
    have hsame : Scoping.exec Declared.clashes (.declareOnce d) s.index σ = σ := by
      simp only [Scoping.exec]
      rw [hexec id (by simp [Scoping.keepFirst, hclash]), Scoping.Store.update_id]
    rw [if_pos hclash, hsame]
    exact h b σ hb hs ho
  · have h : Realizes hosts owner (declare s node name span kind meaning) s (.declare d) :=
      realizes_declare node name span kind meaning
    have hsame : Scoping.exec Declared.clashes (.declareOnce d) s.index σ =
        Scoping.exec Declared.clashes (.declare d) s.index σ := by
      simp only [Scoping.exec]
      exact hexec (· ++ [d]) (by simp [Scoping.keepFirst, hclash])
    rw [if_neg hclash, hsame]
    exact h b σ hb hs ho

/-! ## Scopes -/

theorem opens_newScopeWithContext (node : Option NodeId) (lexicalThis : Option LexicalThisOwner)
    (thisTypeOwner : Option DeclId) :
    Opens hosts (newScopeWithContext s node lexicalThis thisTypeOwner) s node := by
  intro b σ hb hs
  have hlt : s.index < b.scopes.length := hb.length_eq ▸ hs
  have hscope : b.scopes[s.index]? = some b.scopes[s.index] := List.getElem?_eq_getElem hlt
  let opened : Scope :=
    { id := ⟨b.scopes.length⟩, parent := some s, owner := node, lexicalThis, thisTypeOwner
      flowContainer := b.scopes[s.index].flowContainer }
  let forNode : NodeId → Option ScopeId := node.elim b.scopeForNode fun node =>
    Function.update b.scopeForNode node (some ⟨b.scopes.length⟩)
  refine ⟨{ b with scopes := b.scopes ++ [opened], scopeForNode := forNode }, ?_, ?_, ?_, ?_⟩
  · rw [← hb.length_eq]
    cases node <;>
    simp [newScopeWithContext, scopeAt, recordScope, Bind.bind, StateT.bind, get, getThe,
      MonadStateOf.get, StateT.get, modify, modifyGet, MonadStateOf.modifyGet, StateT.modifyGet,
      bindM_pure, hscope, opened, forNode]
  · refine ⟨hb.hosts_eq, by simp [Scoping.Store.opened, hb.length_eq], ?_, hb.pending⟩
    intro i scope cell hi hc
    simp only [Scoping.Store.opened] at hc
    rcases Nat.lt_trichotomy i b.scopes.length with hilt | rfl | higt
    · rw [List.getElem?_append_left hilt] at hi
      rw [List.getElem?_append_left (hb.length_eq ▸ hilt)] at hc
      exact hb.cells i scope cell hi hc
    · simp only [List.getElem?_concat_length, Option.some.injEq] at hi
      simp only [hb.length_eq, List.getElem?_concat_length, Option.some.injEq] at hc
      subst hi hc
      exact ⟨rfl, fun name => by simp [Scope.idsOf, opened]⟩
    · rw [List.getElem?_eq_none (by simp; omega)] at hi
      cases hi
  · intro i scope hi
    exact ⟨scope, by rw [List.getElem?_append_left (List.getElem?_eq_some_iff.1 hi).1, hi], rfl⟩
  · intro o ho
    exact ⟨opened, by simp [← hb.length_eq], ho⟩

theorem Opens.after {m : BindM α} {k : α → BindM ScopeId} {node : Option NodeId}
    (hm : Realizes hosts none m s .empty) (hk : ∀ a, Opens hosts (k a) s node) :
    Opens hosts (m >>= k) s node := by
  intro b σ hb hs
  obtain ⟨a, b₁, hrun₁, hb₁, hkeep₁⟩ := hm b σ hb hs (by simp)
  obtain ⟨b₂, hrun₂, hb₂, hkeep₂, howner⟩ := hk a b₁ σ hb₁ hs
  exact ⟨b₂, by simp [Bind.bind, StateT.bind, hrun₁, hrun₂], hb₂, hkeep₁.trans hkeep₂, howner⟩

/-- Attributes of a fresh scope may be set right after it is opened. -/
theorem Opens.updated {m : BindM ScopeId} {node : Option NodeId} {f : Scope → Scope}
    (hm : Opens hosts m s node) (hparent : ∀ sc, (f sc).parent = sc.parent)
    (howner : ∀ sc, (f sc).owner = sc.owner) (hnames : ∀ sc, (f sc).names = sc.names) :
    Opens hosts (do let c ← m; updateScope c f; return c) s node := by
  intro b σ hb hs
  obtain ⟨b₁, hrun₁, hb₁, hkeep₁, ho⟩ := hm b σ hb hs
  have hlen : s.index < (σ.opened s.index).cells.length := by
    simp [Scoping.Store.opened]; omega
  have hupdate : Realizes hosts none (updateScope ⟨σ.cells.length⟩ f) s .empty :=
    realizes_updateScope hparent howner hnames
  obtain ⟨_, b₂, hrun₂, hb₂, hkeep₂⟩ := hupdate b₁ _ hb₁ hlen (by simp)
  exact ⟨b₂, by simp [Bind.bind, StateT.bind, hrun₁, hrun₂, bindM_pure], hb₂,
    hkeep₁.trans hkeep₂, fun o hoo => hkeep₂.ownerIs (ho o hoo)⟩

theorem opens_newScope (node : NodeId) : Opens hosts (newScope s node) s (some node) :=
  .after realizes_scopeAt fun _ => opens_newScopeWithContext _ _ _

theorem opens_newFlowScope (node : NodeId) (lexicalThis : Option LexicalThisOwner)
    (thisTypeOwner : Option DeclId) (kind : FlowContainerKind) :
    Opens hosts (newFlowScope s node lexicalThis thisTypeOwner kind) s (some node) :=
  (opens_newScopeWithContext _ _ _).updated (fun _ => rfl) (fun _ => rfl) fun _ => rfl

theorem opens_newAnonymousScopeWithThisType (thisTypeOwner : Option DeclId) :
    Opens hosts (newAnonymousScopeWithThisType s thisTypeOwner) s none :=
  .after realizes_scopeAt fun _ => opens_newScopeWithContext _ _ _

theorem opens_newAnonymousScope : Opens hosts (newAnonymousScope s) s none :=
  .after realizes_scopeAt fun _ => opens_newAnonymousScopeWithThisType _

theorem opens_newTypeLiteralScope : Opens hosts (newTypeLiteralScope s) s none :=
  opens_newAnonymousScopeWithThisType _

theorem opens_newFunctionLikeScope (id : NodeId) (form : FunctionLikeSyntax) :
    Opens hosts (newFunctionLikeScope s id form) s (some id) := by
  unfold newFunctionLikeScope
  split
  · exact opens_newFlowScope _ _ _ _
  · exact .after realizes_scopeAt fun _ => opens_newFlowScope _ _ _ _

end Steps

end Tsz.Bind
