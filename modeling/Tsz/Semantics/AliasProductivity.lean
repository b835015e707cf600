import Tsz.Bind.Facts
import Tsz.Recursion.GraphSearch
import Tsz.Syntax.AuthoredTypes

/-!
# Productivity of recursive aliases

An alias that refers to itself through unions and intersections only has no type; one that refers
to itself below an array, a member or a signature does. The answer is read off the graph of the
aliases that the root can get to, unless that graph is too large.

## Main definitions

* `collectAliasEdges` — the references to aliases in the type of an alias.
* `exploreAliases` — the aliases that the root can get to.
* `aliasRecursionProductivity` — the answer.

## Main results

* `exploreAliases_eq_some` — an exploration within the limit finds the whole graph.
* `aliasRecursionProductivity_classifies` — what each answer means.
-/

namespace Tsz.Semantics

open Tsz.Bind Recursion Syntax

inductive AliasRecursionProductivity
  | acyclic
  | productive
  | unproductive
  | unsupported
deriving DecidableEq, Repr

inductive AliasPathKind
  | neutral
  | productive
  | unsupported
deriving DecidableEq, Repr

def AliasPathKind.throughProductiveBoundary : AliasPathKind → AliasPathKind
  | .unsupported => .unsupported
  | .neutral | .productive => .productive

structure AliasEdge where
  source : DeclId
  target : DeclId
  path : AliasPathKind
deriving DecidableEq, Repr

def maxAliasRecursionGraph : Nat := 512

inductive DeclarationModel
  | typeAlias (declaration : TypeAliasDeclaration) (scope : ScopeId)
  | interface
  | classModel
  | other

/-- What the checker knows of the declarations of a program. -/
structure AliasModels where
  model : DeclId → Option DeclarationModel
  /-- The type of a name in a scope of a file. -/
  resolveName : FileId → ScopeId → String → Option DeclId
  isSingleTypeSymbolDeclaration : DeclId → Bool
  isRestArrayType : DeclId → Bool

inductive AliasPending
  | type (node : TypeNode) (path : AliasPathKind) (shadows : List String)
  | member (node : TypeMember) (path : AliasPathKind) (shadows : List String)

def withAliasTypeParameters (outer : List String) (parameters : List TypeParameterDeclaration) :
    List String :=
  outer ++ parameters.map (·.name)

def AliasPending.start (authored : TypeAliasDeclaration) : List AliasPending :=
  [.type authored.ty .neutral (authored.typeParameters.map (·.name))]

def aliasChild (path : AliasPathKind) (shadows edgeShadows : List String) :
    AuthoredTypeItem → AliasPending
  | .type node edge =>
    .type node (if edge = .typeParameterDeclaration then .unsupported else path)
      (match edge with
      | .conditionalTrue | .mappedConstraint => edgeShadows
      | .nested | .typeParameterDeclaration => shadows)
  | .member node => .member node path shadows

/-- Put the parts of a type on the stack; the last one goes on top. -/
def pushAliasChildren (children : List AuthoredTypeItem) (path : AliasPathKind)
    (shadows edgeShadows : List String) (pending : List AliasPending) : List AliasPending :=
  (children.map (aliasChild path shadows edgeShadows)).reverse ++ pending

namespace AliasModels

variable (M : AliasModels)

/-- What a reference to a name leads to, and the path to its arguments. -/
def visitReference (source : DeclId) (scope : ScopeId) (name : String) (path : AliasPathKind)
    (shadows : List String) : Option AliasEdge × AliasPathKind :=
  if name ∈ shadows then (none, .unsupported)
  else
    match M.resolveName source.file scope name with
    | none => (none, .unsupported)
    | some target =>
      match M.model target with
      | some (.typeAlias _ _) =>
        let edgePath := if M.isSingleTypeSymbolDeclaration target then path else .unsupported
        (some { source, target, path := edgePath }, edgePath)
      | some .interface | some .classModel => (none, path.throughProductiveBoundary)
      | some .other => (none, .unsupported)
      | none =>
        (none, if M.isRestArrayType target then path.throughProductiveBoundary else .unsupported)

/-- The edge that a type adds, and the path and the shadowing names for its parts. -/
def visitType (source : DeclId) (scope : ScopeId) (node : TypeNode) (path : AliasPathKind)
    (shadows : List String) : Option AliasEdge × AliasPathKind × List String × List String :=
  match node.kind with
  | .array _ | .tuple _ | .object _ => (none, path.throughProductiveBoundary, shadows, shadows)
  | .function _ typeParameters _ _ _ | .constructor _ typeParameters _ _ _ _ =>
    (none, path.throughProductiveBoundary, withAliasTypeParameters shadows typeParameters, shadows)
  | .reference name _ _ =>
    let (edge, childPath) := M.visitReference source scope name path shadows
    (edge, childPath, shadows, shadows)
  | .infer name _ _ => (none, .unsupported, shadows ++ [name], shadows)
  | .conditional _ extendsType _ _ =>
    (none, .unsupported, shadows, shadows ++ extendsType.conditionalInfers)
  | .mapped parameter _ _ _ _ _ _ _ => (none, .unsupported, shadows ++ [parameter], shadows)
  | .predicate _ _ _ _ | .keyOf _ | .indexedAccess _ _ => (none, .unsupported, shadows, shadows)
  | .union _ | .intersection _ | .readonly _ | .parenthesized _
  | .keyword _ | .literal _ | .this | .typeQuery _ _ _ | .missing => (none, path, shadows, shadows)

def memberShadows (member : TypeMember) (shadows : List String) : List String :=
  match member.kind.signature with
  | some (typeParameters, _, _) => withAliasTypeParameters shadows typeParameters
  | none => shadows

end AliasModels

def AliasPending.item : AliasPending → AuthoredTypeItem
  | .type node _ _ => nestedItem node
  | .member node _ _ => .member node

noncomputable def AliasPending.total (pending : List AliasPending) : Nat :=
  totalWeight (pending.map item)

theorem AliasPending.total_pushAliasChildren (children : List AuthoredTypeItem)
    (path : AliasPathKind) (shadows edgeShadows : List String) (pending : List AliasPending) :
    total (pushAliasChildren children path shadows edgeShadows pending) =
      totalWeight children + total pending := by
  have hchildren : ∀ items : List AuthoredTypeItem,
      totalWeight ((items.map (aliasChild path shadows edgeShadows)).map item) =
        totalWeight items := by
    intro items
    induction items with
    | nil => rfl
    | cons child items ih =>
      simp only [List.map_cons, totalWeight_cons, ih]
      cases child <;> rfl
  simp only [total, pushAliasChildren, List.map_append, totalWeight_append, List.map_reverse,
    totalWeight_perm (List.reverse_perm _), hchildren]

namespace AliasModels

variable (M : AliasModels)

/-- Collect the references to aliases, unless there are too many. -/
def collectAliasEdges (source : DeclId) (scope : ScopeId) (pending : List AliasPending)
    (edges : List AliasEdge) : Option (List AliasEdge) :=
  match pending with
  | [] => some edges
  | .member node path shadows :: rest =>
    let shadows := memberShadows node shadows
    collectAliasEdges source scope
      (pushAliasChildren node.authoredChildren path shadows shadows rest) edges
  | .type node path shadows :: rest =>
    if maxAliasRecursionGraph ≤ edges.length then none
    else
      let (edge, childPath, childShadows, edgeShadows) := M.visitType source scope node path shadows
      collectAliasEdges source scope
        (pushAliasChildren node.authoredChildren childPath childShadows edgeShadows rest)
        (edges ++ edge.toList)
termination_by AliasPending.total pending
decreasing_by
  · rw [AliasPending.total_pushAliasChildren]
    have := totalWeight_member_lt node
    simpa [AliasPending.total, AliasPending.item, AuthoredTypeItem.weight] using this
  · rw [AliasPending.total_pushAliasChildren]
    have := totalWeight_node_lt node
    simpa [AliasPending.total, AliasPending.item, nestedItem, AuthoredTypeItem.weight] using this

/-- The aliases that pending ones lead to, and their edges. -/
def exploreAliases (pending seen declarations : List DeclId) (edges : List AliasEdge) :
    Option (List DeclId × List AliasEdge) :=
  match pending with
  | [] => some (declarations, edges)
  | declaration :: rest =>
    if declaration ∈ seen then exploreAliases rest seen declarations edges
    -- The list grows by one, so it meets the limit before it passes it.
    else if maxAliasRecursionGraph ≤ declarations.length then none
    else
      match M.model declaration with
      | some (.typeAlias authored scope) =>
        match M.collectAliasEdges declaration scope (AliasPending.start authored) edges with
        | none => none
        | some edges =>
          let targets := (edges.filter fun edge =>
            edge.source = declaration && edge.target ∉ declaration :: seen).map (·.target)
          exploreAliases (targets.reverse ++ rest) (declaration :: seen)
            (declarations ++ [declaration]) edges
      | _ => exploreAliases rest (declaration :: seen) declarations edges
termination_by (maxAliasRecursionGraph - declarations.length, pending.length)

def graphEdges (edges : List AliasEdge) : List (DeclId × DeclId) :=
  edges.map fun edge => (edge.source, edge.target)

def graphRootHasCycle (root : DeclId) (edges : List AliasEdge) (includes : AliasEdge → Bool) :
    Bool :=
  pathExists (graphEdges (edges.filter includes)) root root

def graphPathExists (start target : DeclId) (edges : List AliasEdge) : Bool :=
  start = target || pathExists (graphEdges edges) start target

def aliasRecursionProductivity (root : DeclId) : AliasRecursionProductivity :=
  match M.exploreAliases [root] [] [] [] with
  | none => .unsupported
  | some (declarations, edges) =>
    let component := declarations.filter fun declaration => graphPathExists declaration root edges
    if graphRootHasCycle root edges fun edge => edge.path = .neutral then .unproductive
    else if edges.any fun edge =>
        edge.path = .unsupported && edge.source ∈ component && edge.target ∈ component then
      .unsupported
    else if graphRootHasCycle root edges fun _ => true then .productive
    else .acyclic

/-! ## The graph of the aliases -/

/-- All references to aliases in pending types. -/
def aliasEdgesFrom (source : DeclId) (scope : ScopeId) (pending : List AliasPending) :
    List AliasEdge :=
  match pending with
  | [] => []
  | .member node path shadows :: rest =>
    let shadows := memberShadows node shadows
    aliasEdgesFrom source scope (pushAliasChildren node.authoredChildren path shadows shadows rest)
  | .type node path shadows :: rest =>
    let (edge, childPath, childShadows, edgeShadows) := M.visitType source scope node path shadows
    edge.toList ++ aliasEdgesFrom source scope
      (pushAliasChildren node.authoredChildren childPath childShadows edgeShadows rest)
termination_by AliasPending.total pending
decreasing_by
  · rw [AliasPending.total_pushAliasChildren]
    have := totalWeight_member_lt node
    simpa [AliasPending.total, AliasPending.item, AuthoredTypeItem.weight] using this
  · rw [AliasPending.total_pushAliasChildren]
    have := totalWeight_node_lt node
    simpa [AliasPending.total, AliasPending.item, nestedItem, AuthoredTypeItem.weight] using this

/-- The edges of the graph that leave a declaration. -/
def aliasEdges (declaration : DeclId) : List AliasEdge :=
  match M.model declaration with
  | some (.typeAlias authored scope) =>
    M.aliasEdgesFrom declaration scope (AliasPending.start authored)
  | _ => []

def IsAlias (declaration : DeclId) : Prop :=
  ∃ authored scope, M.model declaration = some (.typeAlias authored scope)

/-- One edge of some kinds leads from an alias to the next. -/
def Refers (kinds : AliasPathKind → Bool) (declaration next : DeclId) : Prop :=
  ∃ edge ∈ M.aliasEdges declaration, kinds edge.path = true ∧ edge.target = next

def Reaches : DeclId → DeclId → Prop := Relation.ReflTransGen (M.Refers fun _ => true)

variable {M}

theorem collectAliasEdges_eq_some {source : DeclId} {scope : ScopeId}
    {pending : List AliasPending} {edges edges' : List AliasEdge}
    (h : M.collectAliasEdges source scope pending edges = some edges') :
    edges' = edges ++ M.aliasEdgesFrom source scope pending := by
  fun_induction collectAliasEdges M source scope pending edges with
  | case1 => simpa [aliasEdgesFrom] using h.symm
  | case2 edges node path shadows rest shadows' ih => rw [aliasEdgesFrom, ih h]
  | case3 => cases h
  | case4 edges node path shadows rest hlimit edge childPath childShadows edgeShadows hvisit ih =>
    rw [ih h, aliasEdgesFrom, hvisit, List.append_assoc]

theorem visitReference_edge {source : DeclId} {scope : ScopeId} {name : String}
    {path : AliasPathKind} {shadows : List String} {edge : AliasEdge}
    (h : (M.visitReference source scope name path shadows).1 = some edge) :
    edge.source = source ∧ M.IsAlias edge.target := by
  unfold visitReference at h
  repeat' split at h
  all_goals
    cases h
    try exact ⟨rfl, _, _, ‹_›⟩

theorem visitType_edge {source : DeclId} {scope : ScopeId} {node : TypeNode}
    {path : AliasPathKind} {shadows : List String} {edge : AliasEdge}
    (h : (M.visitType source scope node path shadows).1 = some edge) :
    edge.source = source ∧ M.IsAlias edge.target := by
  unfold visitType at h
  split at h
  case h_6 => exact visitReference_edge h
  all_goals cases h

theorem mem_aliasEdgesFrom {source : DeclId} {scope : ScopeId} {pending : List AliasPending}
    {edge : AliasEdge} (h : edge ∈ M.aliasEdgesFrom source scope pending) :
    edge.source = source ∧ M.IsAlias edge.target := by
  fun_induction aliasEdgesFrom M source scope pending with
  | case1 => cases h
  | case2 node path shadows rest shadows' ih => exact ih h
  | case3 node path shadows rest edge' childPath childShadows edgeShadows hvisit ih =>
    rcases List.mem_append.mp h with h | h
    · exact visitType_edge (by rw [hvisit]; exact Option.mem_toList.mp h)
    · exact ih h

theorem mem_aliasEdges {declaration : DeclId} {edge : AliasEdge}
    (h : edge ∈ M.aliasEdges declaration) :
    edge.source = declaration ∧ M.IsAlias declaration ∧ M.IsAlias edge.target := by
  unfold aliasEdges at h
  split at h
  next authored scope hmodel =>
    obtain ⟨hsource, htarget⟩ := mem_aliasEdgesFrom h
    exact ⟨hsource, ⟨authored, scope, hmodel⟩, htarget⟩
  next => cases h

/-! ## Exploration -/

/-- What is known of the graph while aliases are pending. -/
structure Explored (M : AliasModels) (root : DeclId) (pending seen declarations : List DeclId)
    (edges : List AliasEdge) : Prop where
  reached : ∀ d, d ∈ pending ∨ d ∈ seen → M.Reaches root d
  closed : ∀ d ∈ seen, ∀ edge ∈ M.aliasEdges d, edge.target ∈ pending ∨ edge.target ∈ seen
  declarations_iff : ∀ d, d ∈ declarations ↔ d ∈ seen ∧ M.IsAlias d
  edges_iff : ∀ edge, edge ∈ edges ↔ ∃ d ∈ declarations, edge ∈ M.aliasEdges d

namespace Explored

variable {root declaration : DeclId} {pending rest seen declarations : List DeclId}
  {edges : List AliasEdge}

theorem start (root : DeclId) : Explored M root [root] [] [] [] where
  reached d hd := by
    obtain rfl : d = root := by simpa using hd
    exact .refl
  closed := nofun
  declarations_iff := by simp
  edges_iff := by simp

theorem skip (h : Explored M root (declaration :: rest) seen declarations edges)
    (hseen : declaration ∈ seen) : Explored M root rest seen declarations edges where
  reached d hd := h.reached d (hd.imp_left (.tail _))
  closed d hd edge hedge := by
    rcases h.closed d hd edge hedge with hmem | hmem
    · rcases List.mem_cons.mp hmem with heq | hmem
      · exact .inr (heq ▸ hseen)
      · exact .inl hmem
    · exact .inr hmem
  declarations_iff := h.declarations_iff
  edges_iff := h.edges_iff

theorem other (h : Explored M root (declaration :: rest) seen declarations edges)
    (hnot : ¬ M.IsAlias declaration) :
    Explored M root rest (declaration :: seen) declarations edges where
  reached d hd := h.reached d (by grind)
  closed d hd edge hedge := by
    rcases List.mem_cons.mp hd with rfl | hd
    · exact absurd (mem_aliasEdges hedge).2.1 hnot
    · have := h.closed d hd edge hedge
      grind
  declarations_iff d := by
    rw [h.declarations_iff, List.mem_cons]
    exact ⟨fun ⟨hd, halias⟩ => ⟨.inr hd, halias⟩, fun ⟨hd, halias⟩ =>
      ⟨hd.resolve_left fun heq => hnot (heq ▸ halias), halias⟩⟩
  edges_iff := h.edges_iff

theorem visit (h : Explored M root (declaration :: rest) seen declarations edges)
    (halias : M.IsAlias declaration) (targets : List DeclId)
    (htargets : ∀ d, d ∈ targets ↔ d ∉ declaration :: seen ∧
      ∃ edge ∈ M.aliasEdges declaration, edge.target = d) :
    Explored M root (targets ++ rest) (declaration :: seen) (declarations ++ [declaration])
      (edges ++ M.aliasEdges declaration) where
  reached d hd := by
    rcases hd with hd | hd
    · rcases List.mem_append.mp hd with hd | hd
      · obtain ⟨-, edge, hedge, rfl⟩ := (htargets d).mp hd
        exact (h.reached declaration (.inl List.mem_cons_self)).tail ⟨edge, hedge, rfl, rfl⟩
      · exact h.reached d (.inl (.tail _ hd))
    · rcases List.mem_cons.mp hd with rfl | hd
      · exact h.reached d (.inl List.mem_cons_self)
      · exact h.reached d (.inr hd)
  closed d hd edge hedge := by
    by_cases hmem : edge.target ∈ declaration :: seen
    · exact .inr hmem
    · refine .inl (List.mem_append.mpr ?_)
      rcases List.mem_cons.mp hd with rfl | hd
      · exact .inl ((htargets _).mpr ⟨hmem, edge, hedge, rfl⟩)
      · have := h.closed d hd edge hedge
        grind
  declarations_iff d := by
    rw [List.mem_append, h.declarations_iff, List.mem_singleton, List.mem_cons]
    constructor
    · rintro (⟨hd, halias⟩ | rfl)
      · exact ⟨.inr hd, halias⟩
      · exact ⟨.inl rfl, halias⟩
    · rintro ⟨rfl | hd, halias⟩
      · exact .inr rfl
      · exact .inl ⟨hd, halias⟩
  edges_iff edge := by
    rw [List.mem_append, h.edges_iff]
    simp only [List.mem_append, List.mem_singleton]
    grind

end Explored

/-- An exploration within the limit finds all aliases that the root reaches, and their edges. -/
theorem exploreAliases_eq_some {root : DeclId} {pending seen declarations declarations' : List DeclId}
    {edges edges' : List AliasEdge}
    (h : M.exploreAliases pending seen declarations edges = some (declarations', edges'))
    (hexplored : Explored M root pending seen declarations edges) :
    ∃ seen', (∀ d, d ∈ pending ∨ d ∈ seen → d ∈ seen') ∧
      Explored M root [] seen' declarations' edges' := by
  fun_induction exploreAliases M pending seen declarations edges with
  | case1 seen declarations edges =>
    cases h
    exact ⟨seen, fun d hd => hd.resolve_left nofun, hexplored⟩
  | case2 seen declarations edges declaration rest hseen ih =>
    obtain ⟨seen', hsub, hresult⟩ := ih h (hexplored.skip hseen)
    exact ⟨seen', by grind, hresult⟩
  | case3 => cases h
  | case4 => cases h
  | case5 seen declarations edges declaration rest hnew hlimit authored scope hmodel edges''
      hcollect targets ih =>
    have hedges : edges'' = edges ++ M.aliasEdges declaration := by
      rw [collectAliasEdges_eq_some hcollect, aliasEdges, hmodel]
    have hvisit := hexplored.visit ⟨authored, scope, hmodel⟩ targets.reverse ?_
    · rw [← hedges] at hvisit
      obtain ⟨seen', hsub, hresult⟩ := ih h hvisit
      exact ⟨seen', by grind, hresult⟩
    · intro d
      simp only [targets, hedges, List.mem_reverse, List.mem_map, List.mem_filter,
        List.mem_append, Bool.and_eq_true, decide_eq_true_eq]
      constructor
      · rintro ⟨edge, ⟨hedge, hsource, htarget⟩, rfl⟩
        refine ⟨htarget, edge, ?_, rfl⟩
        rcases hedge with hedge | hedge
        · obtain ⟨d, -, hedge⟩ := (hexplored.edges_iff edge).mp hedge
          rwa [← hsource, (mem_aliasEdges hedge).1]
        · exact hedge
      · rintro ⟨htarget, edge, hedge, rfl⟩
        exact ⟨edge, ⟨.inr hedge, (mem_aliasEdges hedge).1, htarget⟩, rfl⟩
  | case6 seen declarations edges declaration rest hnew hlimit hmodel ih =>
    obtain ⟨seen', hsub, hresult⟩ := ih h (hexplored.other fun ⟨authored, scope, halias⟩ =>
      hmodel authored scope halias)
    exact ⟨seen', by grind, hresult⟩

/-! ## What the answers mean -/

/-- A cycle of neutral edges leads through the root. -/
def NeutralCycle (M : AliasModels) (root : DeclId) : Prop :=
  Relation.TransGen (M.Refers (· = .neutral)) root root

def OnCycle (M : AliasModels) (root : DeclId) : Prop :=
  Relation.TransGen (M.Refers fun _ => true) root root

/-- The alias and the root reach each other. -/
def InComponent (M : AliasModels) (root declaration : DeclId) : Prop :=
  M.Reaches root declaration ∧ M.Reaches declaration root

def UnsupportedInComponent (M : AliasModels) (root : DeclId) : Prop :=
  ∃ declaration, ∃ edge ∈ M.aliasEdges declaration, edge.path = .unsupported ∧
    M.InComponent root declaration ∧ M.InComponent root edge.target

/-- The aliases that the root reaches do not exceed the limit of the exploration. -/
def WithinLimit (M : AliasModels) (root : DeclId) : Prop :=
  ∃ graph, M.exploreAliases [root] [] [] [] = some graph

namespace Explored

variable {root : DeclId} {seen declarations : List DeclId} {edges : List AliasEdge}

theorem mem_declarations_iff (h : Explored M root [] seen declarations edges) (hroot : root ∈ seen)
    (d : DeclId) : d ∈ declarations ↔ M.Reaches root d ∧ M.IsAlias d := by
  rw [h.declarations_iff]
  refine and_congr_left' ⟨fun hd => h.reached d (.inr hd), fun hreach => ?_⟩
  induction hreach with
  | refl => exact hroot
  | tail _ hedge ih =>
    obtain ⟨edge, hedge, -, rfl⟩ := hedge
    exact (h.closed _ ih edge hedge).resolve_left nofun

/-- From what the root reaches, the edges that were collected lead where the aliases refer to. -/
theorem transGen_iff (h : Explored M root [] seen declarations edges) (hroot : root ∈ seen)
    (kinds : AliasPathKind → Bool) {start : DeclId} (target : DeclId)
    (hstart : M.Reaches root start) :
    Relation.TransGen (Edge (graphEdges (edges.filter fun edge => kinds edge.path))) start target ↔
      Relation.TransGen (M.Refers kinds) start target := by
  have hedge (d next : DeclId) :
      Edge (graphEdges (edges.filter fun edge => kinds edge.path)) d next ↔
        M.Reaches root d ∧ M.Refers kinds d next := by
    simp only [Edge, graphEdges, List.mem_map, List.mem_filter, Prod.mk.injEq, h.edges_iff]
    constructor
    · rintro ⟨edge, ⟨⟨d', hd', hedge⟩, hkinds⟩, rfl, rfl⟩
      rw [(mem_aliasEdges hedge).1]
      exact ⟨((h.mem_declarations_iff hroot d').mp hd').1, edge, hedge, hkinds, rfl⟩
    · rintro ⟨hreach, edge, hedge, hkinds, rfl⟩
      have hd := (h.mem_declarations_iff hroot d).mpr ⟨hreach, (mem_aliasEdges hedge).2.1⟩
      exact ⟨edge, ⟨⟨d, hd, hedge⟩, hkinds⟩, (mem_aliasEdges hedge).1, rfl⟩
  constructor
  · exact Relation.TransGen.mono (fun d next hd => ((hedge d next).mp hd).2) start target
  · intro hpath
    have hall : ∀ d, Relation.TransGen (M.Refers kinds) start d → M.Reaches root d ∧
        Relation.TransGen (Edge (graphEdges (edges.filter fun edge => kinds edge.path))) start d := by
      intro d hd
      induction hd with
      | single hrefers =>
        obtain ⟨edge, hmem, -, rfl⟩ := id hrefers
        exact ⟨hstart.tail ⟨edge, hmem, rfl, rfl⟩, .single ((hedge _ _).mpr ⟨hstart, hrefers⟩)⟩
      | tail _ hrefers ih =>
        obtain ⟨edge, hmem, -, rfl⟩ := id hrefers
        exact ⟨ih.1.tail ⟨edge, hmem, rfl, rfl⟩, ih.2.tail ((hedge _ _).mpr ⟨ih.1, hrefers⟩)⟩
    exact (hall target hpath).2

theorem graphRootHasCycle_iff (h : Explored M root [] seen declarations edges)
    (hroot : root ∈ seen) (kinds : AliasPathKind → Bool) :
    graphRootHasCycle root edges (fun edge => kinds edge.path) = true ↔
      Relation.TransGen (M.Refers kinds) root root :=
  pathExists_iff.trans (h.transGen_iff hroot kinds root .refl)

theorem graphPathExists_iff (h : Explored M root [] seen declarations edges)
    (hroot : root ∈ seen) {d : DeclId} (hd : M.Reaches root d) :
    graphPathExists d root edges = true ↔ M.Reaches d root := by
  have hall := h.transGen_iff hroot (fun _ => true) root hd
  rw [List.filter_true] at hall
  rw [graphPathExists, Bool.or_eq_true, decide_eq_true_eq, pathExists_iff, hall, Reaches,
    Relation.reflTransGen_iff_eq_or_transGen, eq_comm]

theorem unsupportedInComponent_iff (h : Explored M root [] seen declarations edges)
    (hroot : root ∈ seen) :
    (edges.any fun edge => edge.path = .unsupported &&
        edge.source ∈ declarations.filter (graphPathExists · root edges) &&
        edge.target ∈ declarations.filter (graphPathExists · root edges)) = true ↔
      M.UnsupportedInComponent root := by
  have hcomponent (d : DeclId) :
      d ∈ declarations.filter (graphPathExists · root edges) ↔
        M.IsAlias d ∧ M.InComponent root d := by
    rw [List.mem_filter, h.mem_declarations_iff hroot]
    constructor
    · rintro ⟨⟨hreach, halias⟩, hpath⟩
      exact ⟨halias, hreach, (h.graphPathExists_iff hroot hreach).mp hpath⟩
    · rintro ⟨halias, hreach, hback⟩
      exact ⟨⟨hreach, halias⟩, (h.graphPathExists_iff hroot hreach).mpr hback⟩
  simp only [List.any_eq_true, Bool.and_eq_true, decide_eq_true_eq, hcomponent, h.edges_iff]
  constructor
  · rintro ⟨edge, ⟨d, hd, hedge⟩, ⟨hpath, -, hsource⟩, -, htarget⟩
    rw [(mem_aliasEdges hedge).1] at hsource
    exact ⟨d, edge, hedge, hpath, hsource, htarget⟩
  · rintro ⟨d, edge, hedge, hpath, hsource, htarget⟩
    obtain ⟨heq, halias, halias'⟩ := mem_aliasEdges hedge
    refine ⟨edge, ⟨d, (h.mem_declarations_iff hroot d).mpr ⟨hsource.1, halias⟩, hedge⟩,
      ⟨hpath, ?_⟩, halias', htarget⟩
    rw [heq]
    exact ⟨halias, hsource⟩

end Explored

/-- Too large a graph is unsupported; else a cycle of neutral edges is unproductive; else an
unsupported edge between aliases that reach each other and the root is unsupported; else a cycle
is productive. -/
theorem aliasRecursionProductivity_classifies (M : AliasModels) (root : DeclId) :
    (M.aliasRecursionProductivity root = .unproductive ↔
      M.WithinLimit root ∧ M.NeutralCycle root) ∧
    (M.aliasRecursionProductivity root = .unsupported ↔
      ¬ M.WithinLimit root ∨ ¬ M.NeutralCycle root ∧ M.UnsupportedInComponent root) ∧
    (M.aliasRecursionProductivity root = .productive ↔
      M.WithinLimit root ∧ ¬ M.NeutralCycle root ∧ ¬ M.UnsupportedInComponent root ∧
        M.OnCycle root) ∧
    (M.aliasRecursionProductivity root = .acyclic ↔
      M.WithinLimit root ∧ ¬ M.NeutralCycle root ∧ ¬ M.UnsupportedInComponent root ∧
        ¬ M.OnCycle root) := by
  unfold aliasRecursionProductivity
  cases hexplore : M.exploreAliases [root] [] [] [] with
  | none =>
    have hlimit : ¬ M.WithinLimit root := by simp [WithinLimit, hexplore]
    simp [hlimit]
  | some graph =>
    obtain ⟨declarations, edges⟩ := graph
    have hlimit : M.WithinLimit root := ⟨_, hexplore⟩
    obtain ⟨seen, hsub, h⟩ := exploreAliases_eq_some hexplore (.start root)
    have hroot : root ∈ seen := hsub root (.inl (List.mem_singleton_self root))
    have hneutral := h.graphRootHasCycle_iff hroot (· = .neutral)
    have hcycle := h.graphRootHasCycle_iff hroot fun _ => true
    have hunsupported := h.unsupportedInComponent_iff hroot
    change _ ↔ M.NeutralCycle root at hneutral
    change _ ↔ M.OnCycle root at hcycle
    dsimp only
    by_cases hn : M.NeutralCycle root
    · rw [if_pos (hneutral.mpr hn)]
      simp [hn, hlimit]
    rw [if_neg fun h => hn (hneutral.mp h)]
    by_cases hu : M.UnsupportedInComponent root
    · rw [if_pos (hunsupported.mpr hu)]
      simp [hn, hu, hlimit]
    rw [if_neg fun h => hu (hunsupported.mp h)]
    by_cases hc : M.OnCycle root
    · rw [if_pos (hcycle.mpr hc)]
      simp [hn, hu, hc, hlimit]
    · rw [if_neg fun h => hc (hcycle.mp h)]
      simp [hn, hu, hc, hlimit]

/-! ### A neutral cycle beyond the limit -/

def selfReference : TypeNode := ⟨⟨⟨0⟩, 0, 0⟩, .reference "A" ⟨⟨0⟩, 0, 0⟩ []⟩

/-- `type A = A | A | ...`. -/
def selfReferences (count : Nat) : TypeAliasDeclaration where
  name := "A"
  nameSpan := ⟨⟨0⟩, 0, 0⟩
  typeParameters := []
  ty := ⟨⟨⟨0⟩, 0, 0⟩, .union (.replicate count selfReference)⟩
  exported := false

def manySelfReferences (count : Nat) : AliasModels where
  model declaration :=
    if declaration = ⟨⟨0⟩, 0⟩ then some (.typeAlias (selfReferences count) ⟨0⟩) else none
  resolveName _ _ _ := some ⟨⟨0⟩, 0⟩
  isSingleTypeSymbolDeclaration _ := true
  isRestArrayType _ := false

def selfEdge : AliasEdge := ⟨⟨⟨0⟩, 0⟩, ⟨⟨0⟩, 0⟩, .neutral⟩

section

variable (total : Nat)

theorem collectAliasEdges_selfReference {rest : List AliasPending} {edges : List AliasEdge}
    (h : edges.length < maxAliasRecursionGraph) :
    (manySelfReferences total).collectAliasEdges ⟨⟨0⟩, 0⟩ ⟨0⟩
      (.type selfReference .neutral [] :: rest) edges =
      (manySelfReferences total).collectAliasEdges ⟨⟨0⟩, 0⟩ ⟨0⟩ rest (edges ++ [selfEdge]) := by
  rw [collectAliasEdges, if_neg (by omega)]
  rfl

theorem pushAliasChildren_selfReferences :
    pushAliasChildren (selfReferences total).ty.authoredChildren .neutral [] [] [] =
      .replicate total (.type selfReference .neutral []) := by
  simp [pushAliasChildren, selfReferences, TypeNode.authoredChildren, aliasChild, nestedItem]

theorem collectAliasEdges_selfReferences {count : Nat} {edges : List AliasEdge}
    (h : maxAliasRecursionGraph < edges.length + count) (hcount : 0 < count) :
    (manySelfReferences total).collectAliasEdges ⟨⟨0⟩, 0⟩ ⟨0⟩
      (.replicate count (.type selfReference .neutral [])) edges = none := by
  induction count generalizing edges with
  | zero => omega
  | succ count ih =>
    rw [List.replicate_succ]
    by_cases hlimit : edges.length < maxAliasRecursionGraph
    · rw [collectAliasEdges_selfReference total hlimit]
      apply ih
      · rw [List.length_append, List.length_singleton]
        omega
      · omega
    · rw [collectAliasEdges, if_pos (by omega)]

theorem not_withinLimit_manySelfReferences (h : maxAliasRecursionGraph < total) :
    ¬ (manySelfReferences total).WithinLimit ⟨⟨0⟩, 0⟩ := by
  have hcollect : (manySelfReferences total).collectAliasEdges ⟨⟨0⟩, 0⟩ ⟨0⟩
      (AliasPending.start (selfReferences total)) [] = none := by
    rw [AliasPending.start, collectAliasEdges, if_neg (by decide)]
    refine (congrArg (collectAliasEdges _ _ _ · _) (pushAliasChildren_selfReferences total)).trans ?_
    exact @collectAliasEdges_selfReferences total total [] (by simpa using h) (by omega)
  have hmodel : (manySelfReferences total).model ⟨⟨0⟩, 0⟩ =
      some (.typeAlias (selfReferences total) ⟨0⟩) := rfl
  have hexplore : (manySelfReferences total).exploreAliases [⟨⟨0⟩, 0⟩] [] [] [] = none := by
    rw [exploreAliases, if_neg List.not_mem_nil, if_neg (by decide), hmodel]
    simp only [hcollect]
  rintro ⟨graph, hgraph⟩
  cases hexplore.symm.trans hgraph

theorem neutralCycle_manySelfReferences (h : 0 < total) :
    (manySelfReferences total).NeutralCycle ⟨⟨0⟩, 0⟩ := by
  obtain ⟨count, rfl⟩ : ∃ count, total = count + 1 := ⟨total - 1, by omega⟩
  refine .single ⟨selfEdge, ?_, rfl, rfl⟩
  have hmodel : (manySelfReferences (count + 1)).model ⟨⟨0⟩, 0⟩ =
      some (.typeAlias (selfReferences (count + 1)) ⟨0⟩) := rfl
  have hfirst (rest : List AliasPending) :
      (manySelfReferences (count + 1)).aliasEdgesFrom ⟨⟨0⟩, 0⟩ ⟨0⟩
        (.type selfReference .neutral [] :: rest) =
      selfEdge :: (manySelfReferences (count + 1)).aliasEdgesFrom ⟨⟨0⟩, 0⟩ ⟨0⟩ rest := by
    rw [aliasEdgesFrom]
    rfl
  have hunion : (manySelfReferences (count + 1)).aliasEdgesFrom ⟨⟨0⟩, 0⟩ ⟨0⟩
      (AliasPending.start (selfReferences (count + 1))) =
      (manySelfReferences (count + 1)).aliasEdgesFrom ⟨⟨0⟩, 0⟩ ⟨0⟩
        (.replicate (count + 1) (.type selfReference .neutral [])) := by
    rw [AliasPending.start, aliasEdgesFrom]
    exact congrArg (aliasEdgesFrom _ _ _ ·) (pushAliasChildren_selfReferences (count + 1))
  rw [aliasEdges, hmodel]
  simp only
  rw [hunion, List.replicate_succ, hfirst]
  exact List.mem_cons_self

end

/-- 513 references of an alias to itself are a neutral cycle, but exceed the limit. -/
theorem aliasRecursionProductivity_manySelfReferences :
    ¬ ((manySelfReferences 513).aliasRecursionProductivity ⟨⟨0⟩, 0⟩ = .unproductive ↔
      (manySelfReferences 513).NeutralCycle ⟨⟨0⟩, 0⟩) := by
  intro h
  have hlimit := not_withinLimit_manySelfReferences 513 (by decide)
  have hunsupported : (manySelfReferences 513).aliasRecursionProductivity ⟨⟨0⟩, 0⟩ = .unsupported := by
    unfold aliasRecursionProductivity
    split
    next => rfl
    next graph hgraph => exact absurd ⟨_, hgraph⟩ hlimit
  have hunproductive := h.mpr (neutralCycle_manySelfReferences 513 (by decide))
  cases hunsupported.symm.trans hunproductive

end AliasModels

end Tsz.Semantics
