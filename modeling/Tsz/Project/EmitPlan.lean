import Tsz.Source
import Tsz.Project.Path
import Tsz.Sorting.Grouping
import Mathlib.Data.Char
import Mathlib.Data.List.Lex
import Mathlib.Data.List.Pairwise

/-!
# Output paths

Where the products of a program are written, and which of them are blocked because they would
overwrite an input or each other.

## Main definitions

* `EmitPaths` — the roots a source path is taken relative to.
* `plannedProducts` — every product of a program before any is blocked.
* `EmitPlan.forProgram` — the products that survive.

## Main results

* `EmitPlan.forProgram_safe` — surviving products overwrite nothing, and only conflicts are
  blocked.
-/

namespace Tsz.Project

open Sorting

/-! ## The program and its options -/

structure ProgramFile where
  id : FileId
  path : Path
  hostPath : Path

/-- The files of a program; a file's identity is its position. -/
structure Program where
  files : List ProgramFile
  id_eq : files.map (·.id) = (List.range files.length).map FileId.mk

/-- The files in the order of the inputs, each with its ordinal. -/
def Program.ofInputs (inputs : List (Path × Path)) : Program where
  files := inputs.zipIdx.map fun ((path, hostPath), ordinal) => ⟨⟨ordinal⟩, path, hostPath⟩
  id_eq := by
    apply List.ext_getElem <;> simp

inductive CapabilityTarget
  | javaScript
  | declaration
deriving DecidableEq, Repr

structure CompilerOptions where
  rootDir : Option Path
  outDir : Option Path
  declarationDir : Option Path
  noEmit : Bool
  declaration : Bool
  emitDeclarationOnly : Bool
  declarationMap : Bool
  sourceMap : Bool
  inlineSourceMap : Bool

def CompilerOptions.requestedEmitTargets (options : CompilerOptions) : List CapabilityTarget :=
  (if options.emitDeclarationOnly then [] else [.javaScript]) ++
    (if options.declaration then [.declaration] else [])

structure RelatedInformation where
  messageText : Name
  code : Nat
  depth : Nat
deriving DecidableEq, Repr

structure Diagnostic where
  file : Name
  start : Nat
  length : Nat
  messageText : Name
  code : Nat
  relatedInformation : List RelatedInformation
deriving DecidableEq, Repr

namespace Diagnostic

def global (messageText : Name) (code : Nat) : Diagnostic := ⟨[], 0, 0, messageText, code, []⟩

def withRelatedInformation (diagnostic : Diagnostic) (related : List RelatedInformation) :
    Diagnostic :=
  { diagnostic with relatedInformation := related }

end Diagnostic

/-- Where an option is written: its configuration file and the range of its key there. -/
structure CompilerOptionOrigin where
  file : Name
  keyStart : Nat
  keyLength : Nat

def CompilerOptionOrigin.diagnosticAtKey (origin : CompilerOptionOrigin) (message : Name)
    (code : Nat) : Diagnostic :=
  ⟨origin.file, origin.keyStart, origin.keyLength, message, code, []⟩

inductive CompilerOptionKey
  | outDir
  | declarationDir
deriving DecidableEq, Repr

inductive RootReason
  | commandLine
  | filesList
deriving DecidableEq, Repr

def RootReason.diagnostic : RootReason → Name × Nat
  | .commandLine => ("Root file specified for compilation".toList, 1427)
  | .filesList => ("Part of 'files' list in tsconfig.json".toList, 1409)

structure ProjectProvenance where
  entryConfigPath : Option Path
  entryOptionOrigin : CompilerOptionKey → Option CompilerOptionOrigin
  rootReason : Path → Option RootReason

/-- Where a text first occurs in another one. -/
def findText (needle text : Name) : Option Nat :=
  (List.range (text.length + 1)).find? fun i => needle.isPrefixOf (text.drop i)

def isDeclarationSource (path : Path) : Bool :=
  let display := path.displayPath
  let text := if display.getLast? = some '/' then display.dropLast else display
  let scheme := findText "://".toList text
  let root :=
    ("//".toList.isPrefixOf text && !(text.drop 2).contains '/') ||
      scheme.any fun i => !(text.drop (i + 3)).contains '/'
  let name := if root then [] else (text.splitOn '/').getLastD []
  let endsWith (suffix : String) := suffix.toList.isSuffixOf name
  endsWith ".d.mts" || endsWith ".d.cts" || endsWith ".ts" && (findText ".d.".toList name).isSome

/-! ## Output paths of a source -/

structure OutputTarget where
  path : Path
  hostPath : Path
deriving DecidableEq

def OutputTarget.map (target : OutputTarget) : OutputTarget where
  path := ⟨target.path.text ++ ".map".toList⟩
  hostPath := ⟨target.hostPath.text ++ ".map".toList⟩

def outputFileName (source : Path) (declaration : Bool) : Name :=
  let stem :=
    match source.fileStem with
    | none | some [] => "output".toList
    | some stem => stem
  let extension :=
    match declaration, String.ofList ((source.extension.getD []).map Char.toLower) with
    | true, "mts" => "d.mts"
    | true, "cts" => "d.cts"
    | true, _ => "d.ts"
    | false, "mts" => "mjs"
    | false, "cts" => "cjs"
    | false, _ => "js"
  stem ++ '.' :: extension.toList

/-- Shorten a directory until it contains another one or has no parent left. -/
def commonWith (directory : Path) : Nat → Path → Path
  | 0, common => common
  | n + 1, common =>
    if directory.startsWith common then common
    else
      match common.parent with
      | some parent => commonWith directory n parent
      | none => common

def commonSourceDirectory (files : List ProgramFile) : Option Path :=
  let directories := files.filterMap fun file =>
    if isDeclarationSource file.hostPath then none
    else file.hostPath.normalizeClampedPathLexically.parent
  match directories with
  | [] => none
  | first :: rest =>
    some (rest.foldl (fun common directory =>
      commonWith directory common.components.length common) first)

def relativePath (base target : Path) : Name :=
  match target.stripPrefix base with
  | some relative =>
    let relative := relative.displayPath
    if relative = [] then ['.'] else "./".toList ++ relative
  | none => target.displayPath

def pathKey (path : Path) : Name := path.normalizeClampedPathLexically.displayPath

def hostPathForLogicalOutput (source : ProgramFile) (output : Path) : Path :=
  if output.isAbsolute then output
  else
    let logicalSource := source.path.normalizeClampedPathLexically
    let hostSource := source.hostPath.normalizeClampedPathLexically
    if !hostSource.isAbsolute || logicalSource.isAbsolute || !hostSource.endsWith logicalSource then
      output
    else
      let workingDirectory :=
        logicalSource.components.foldl (fun directory _ => directory.pop) hostSource
      workingDirectory.join output

structure EmitPaths where
  sourceRoot : Option Path
  commonSourceRoot : Option Path
  configuredRoot : Option Path

namespace EmitPaths

/-- A configuration project supplies its directory as the root; a command-line program uses the
common directory of its sources. -/
def forProgram (files : List ProgramFile) (configuredRoot explicitRoot : Option Path) :
    EmitPaths :=
  let commonSourceRoot := commonSourceDirectory files
  let configuredRoot := configuredRoot.map Path.normalizeClampedPathLexically
  { sourceRoot :=
      (explicitRoot.map Path.normalizeClampedPathLexically).or
        (configuredRoot.or commonSourceRoot)
    commonSourceRoot
    configuredRoot }

variable (paths : EmitPaths)

def outputTarget (source : ProgramFile) (directory : Option Path) (declaration : Bool) :
    OutputTarget :=
  let name := outputFileName source.path declaration
  let besideSource : OutputTarget :=
    ⟨source.path.withFileName name, source.hostPath.withFileName name⟩
  match directory with
  | none => besideSource
  | some directory =>
    let sourcePath := source.hostPath.normalizeClampedPathLexically
    match (paths.sourceRoot.bind sourcePath.stripPrefix).filter (·.text ≠ []) with
    -- a source outside of the root keeps its product beside it
    | none => besideSource
    | some relative =>
      let path := directory.join (relative.withFileName name)
      ⟨path, hostPathForLogicalOutput source path⟩

def inferredRootDiagnostic (options : CompilerOptions) (provenance : ProjectProvenance) :
    Option Diagnostic := do
  if options.rootDir.isSome || (options.outDir.isNone && options.declarationDir.isNone) then none
  else
    let configPath ← provenance.entryConfigPath
    let configuredRoot ← paths.configuredRoot
    let commonSourceRoot ← paths.commonSourceRoot
    if commonSourceRoot.components = configuredRoot.components then none
    else
      let configName := configPath.fileName.getD configPath.text
      let inferred := relativePath configuredRoot commonSourceRoot
      let message :=
        "The common source directory of '".toList ++ configName ++ "' is '".toList ++ inferred ++
          ("'. The 'rootDir' setting must be explicitly set to this or another path to adjust " ++
            "your output's file layout.\n  Visit https://aka.ms/ts6 for migration " ++
            "information.").toList
      let option := if options.outDir.isSome then .outDir else .declarationDir
      match provenance.entryOptionOrigin option with
      | some origin => some (origin.diagnosticAtKey message 5011)
      | none => some (Diagnostic.global message 5011)

def explicitRootDiagnostics (files : List ProgramFile) (options : CompilerOptions)
    (provenance : ProjectProvenance) : List Diagnostic :=
  match options.rootDir.map Path.normalizeClampedPathLexically with
  | none => []
  | some root =>
    (files.filter fun file => !isDeclarationSource file.hostPath).filterMap fun file =>
      let path := file.hostPath.normalizeClampedPathLexically
      if path.startsWith root then none
      else
        let related :=
          match provenance.rootReason path with
          | none => []
          | some reason =>
            let (message, code) := reason.diagnostic
            [⟨"The file is in the program because:".toList, 1411, 1⟩, ⟨message, code, 2⟩]
        some ((Diagnostic.global
          ("File '".toList ++ path.displayPath ++ "' is not under 'rootDir' '".toList ++
            root.displayPath ++ "'. 'rootDir' is expected to contain all source files.".toList)
          6059).withRelatedInformation related)

end EmitPaths

/-! ## Planning -/

inductive ProductKind
  | javascript
  | declaration
  | map
deriving DecidableEq, Repr

structure PlannedProduct where
  source : FileId
  kind : ProductKind
  target : OutputTarget
deriving DecidableEq

namespace PlannedProduct

/-- The normalised host path the product would be written to. -/
def key (product : PlannedProduct) : Name := pathKey product.target.hostPath

end PlannedProduct

/-- Whether the program's analysis stands behind a kind of output of a file. -/
abbrev CapabilityAnalysis := CapabilityTarget → FileId → Bool

/-- The products one kind of output asks of a file. -/
def productsFor (paths : EmitPaths) (options : CompilerOptions)
    (capabilities : CapabilityAnalysis) (file : ProgramFile) (capability : CapabilityTarget) :
    List PlannedProduct :=
  if !capabilities capability file.id then []
  else
    let declaration := capability == .declaration
    let (directory, mapEnabled) :=
      if declaration then (options.declarationDir.or options.outDir, options.declarationMap)
      else (options.outDir, options.sourceMap && !options.inlineSourceMap)
    let output := paths.outputTarget file directory declaration
    let kind := if declaration then .declaration else .javascript
    ⟨file.id, kind, output⟩ :: (if mapEnabled then [⟨file.id, .map, output.map⟩] else [])

def productsOf (paths : EmitPaths) (options : CompilerOptions)
    (capabilities : CapabilityAnalysis) (file : ProgramFile) : List PlannedProduct :=
  if isDeclarationSource file.path then []
  else options.requestedEmitTargets.flatMap (productsFor paths options capabilities file)

structure EmitFilePlan where
  javascript : Option Path
  declaration : Option Path
deriving DecidableEq

/-- A program-wide, validated set of output products; a blocked product is skipped while
unrelated products can emit. -/
structure EmitPlan where
  files : List EmitFilePlan
  programDiagnostics : List Diagnostic
  emitDiagnostics : List Diagnostic

namespace EmitPlan

def empty (fileCount : Nat) : EmitPlan := ⟨List.replicate fileCount ⟨none, none⟩, [], []⟩

def output (plan : EmitPlan) (id : FileId) : ProductKind → Option Path
  | .javascript => plan.files[id.index]?.bind (·.javascript)
  | .declaration => plan.files[id.index]?.bind (·.declaration)
  | .map => none

/-- Fill the slot of a product; maps have none. -/
def setProduct (plan : EmitPlan) (id : FileId) (kind : ProductKind) (path : Option Path) :
    EmitPlan :=
  match kind with
  | .javascript =>
    { plan with files := plan.files.modify id.index fun file => { file with javascript := path } }
  | .declaration =>
    { plan with files := plan.files.modify id.index fun file => { file with declaration := path } }
  | .map => plan

def planProduct (plan : EmitPlan) (product : PlannedProduct) : EmitPlan :=
  plan.setProduct product.source product.kind (some product.target.path)

def blockProduct (plan : EmitPlan) (product : PlannedProduct) : EmitPlan :=
  plan.setProduct product.source product.kind none

/-- Why the products of one target path, of which `first` comes first, may not be written. -/
def conflictDiagnostic (inputPaths : List Name) (key : Name) (first : PlannedProduct)
    (rest : List PlannedProduct) : Option Diagnostic :=
  let target := first.target.hostPath
  if key ∈ inputPaths then
    some (Diagnostic.global
      ("Cannot write file '".toList ++ target.displayPath ++
        "' because it would overwrite input file.".toList) 5055)
  else if rest.any (·.source ≠ first.source) then
    some (Diagnostic.global
      ("Cannot write file '".toList ++ target.displayPath ++
        "' because it would be overwritten by multiple input files.".toList) 5056)
  else none

def preflightGroup (inputPaths : List Name) (plan : EmitPlan) :
    Name × List PlannedProduct → EmitPlan
  | (_, []) => plan
  | (key, first :: rest) =>
    match conflictDiagnostic inputPaths key first rest with
    | none => plan
    | some diagnostic =>
      let plan := { plan with emitDiagnostics := plan.emitDiagnostics ++ [diagnostic] }
      (first :: rest).foldl blockProduct plan

def preflight (plan : EmitPlan) (files : List ProgramFile) (products : List PlannedProduct) :
    EmitPlan :=
  let inputPaths := files.map fun file => pathKey file.hostPath
  (groupByKey PlannedProduct.key products).foldl (preflightGroup inputPaths) plan

end EmitPlan

def emitPathsFor (program : Program) (options : CompilerOptions)
    (provenance : ProjectProvenance) : EmitPaths :=
  EmitPaths.forProgram program.files (provenance.entryConfigPath.bind Path.parent) options.rootDir

def plannedProducts (program : Program) (options : CompilerOptions)
    (provenance : ProjectProvenance) (capabilities : CapabilityAnalysis) : List PlannedProduct :=
  if options.noEmit then []
  else
    let paths := emitPathsFor program options provenance
    program.files.flatMap (productsOf paths options capabilities)

def EmitPlan.forProgram (program : Program) (options : CompilerOptions)
    (provenance : ProjectProvenance) (capabilities : CapabilityAnalysis) : EmitPlan :=
  let paths := emitPathsFor program options provenance
  let fileSlots := (program.files.map (·.id.index + 1)).foldl max 0
  let plan := EmitPlan.empty fileSlots
  let plan := { plan with
    programDiagnostics := EmitPaths.explicitRootDiagnostics program.files options provenance }
  if options.noEmit then plan
  else
    let products := plannedProducts program options provenance capabilities
    let plan := products.foldl EmitPlan.planProduct plan
    let plan := { plan with
      programDiagnostics :=
        plan.programDiagnostics ++ (paths.inferredRootDiagnostic options provenance).toList }
    plan.preflight program.files products

/-! ## Slots of the plan -/

namespace EmitPlan

theorem output_setProduct {plan : EmitPlan} {id : FileId} (hid : id.index < plan.files.length)
    (kind : ProductKind) (path : Option Path) (id' : FileId) (kind' : ProductKind) :
    (plan.setProduct id kind path).output id' kind' =
      if kind ≠ .map ∧ id = id' ∧ kind = kind' then path else plan.output id' kind' := by
  obtain ⟨i⟩ := id
  obtain ⟨j⟩ := id'
  cases kind <;> cases kind' <;> simp [setProduct, output, List.getElem?_modify] <;>
    by_cases hij : i = j <;> simp_all

@[simp] theorem length_setProduct (plan : EmitPlan) (id : FileId) (kind : ProductKind)
    (path : Option Path) : (plan.setProduct id kind path).files.length = plan.files.length := by
  cases kind <;> simp [setProduct]

/-- The products that have a slot, told apart by it. -/
def SlotsDiffer (p q : PlannedProduct) : Prop :=
  p.kind ≠ .map → q.kind ≠ .map → p.source = q.source → p.kind ≠ q.kind

instance : Std.Symm SlotsDiffer where
  symm _ _ h hq hp hsource := (h hp hq hsource.symm).symm

@[simp] theorem length_foldl_planProduct (products : List PlannedProduct) (plan : EmitPlan) :
    (products.foldl planProduct plan).files.length = plan.files.length := by
  induction products generalizing plan with
  | nil => rfl
  | cons p products ih => rw [List.foldl_cons, ih, planProduct, length_setProduct]

theorem output_foldl_planProduct {products : List PlannedProduct} {plan : EmitPlan}
    (hin : ∀ p ∈ products, p.source.index < plan.files.length)
    (hslots : products.Pairwise SlotsDiffer) (id : FileId) (kind : ProductKind)
    (path : Path) :
    (products.foldl planProduct plan).output id kind = some path ↔
      (∃ p ∈ products, p.kind ≠ .map ∧ p.source = id ∧ p.kind = kind ∧ p.target.path = path) ∨
      (∀ p ∈ products, ¬ (p.kind ≠ .map ∧ p.source = id ∧ p.kind = kind)) ∧
        plan.output id kind = some path := by
  induction products generalizing plan with
  | nil => simp
  | cons p products ih =>
    obtain ⟨hp, hrest⟩ := List.forall_mem_cons.mp hin
    obtain ⟨hdiffer, hslots⟩ := List.pairwise_cons.mp hslots
    have hin' : ∀ q ∈ products, q.source.index < (plan.planProduct p).files.length := by
      simpa [planProduct] using hrest
    rw [List.foldl_cons, ih hin' hslots, planProduct, output_setProduct hp]
    by_cases hhit : p.kind ≠ .map ∧ p.source = id ∧ p.kind = kind
    · have hnone : ∀ q ∈ products, ¬ (q.kind ≠ .map ∧ q.source = id ∧ q.kind = kind) := by
        rintro q hq ⟨hmap, hsource, hkind⟩
        exact hdiffer q hq hhit.1 hmap (hhit.2.1.trans hsource.symm) (hhit.2.2.trans hkind.symm)
      grind
    · rw [if_neg hhit]
      grind

@[simp] theorem length_foldl_blockProduct (products : List PlannedProduct) (plan : EmitPlan) :
    (products.foldl blockProduct plan).files.length = plan.files.length := by
  induction products generalizing plan with
  | nil => rfl
  | cons p products ih => rw [List.foldl_cons, ih, blockProduct, length_setProduct]

theorem output_foldl_blockProduct {products : List PlannedProduct} {plan : EmitPlan}
    (hin : ∀ p ∈ products, p.source.index < plan.files.length) (id : FileId)
    (kind : ProductKind) (path : Path) :
    (products.foldl blockProduct plan).output id kind = some path ↔
      (∀ p ∈ products, ¬ (p.source = id ∧ p.kind = kind)) ∧ plan.output id kind = some path := by
  induction products generalizing plan with
  | nil => simp
  | cons p products ih =>
    obtain ⟨hp, hrest⟩ := List.forall_mem_cons.mp hin
    have hin' : ∀ q ∈ products, q.source.index < (plan.blockProduct p).files.length := by
      simpa [blockProduct] using hrest
    rw [List.foldl_cons, ih hin', blockProduct, output_setProduct hp]
    cases hkind : p.kind <;> grind [output]

/-! ## Blocking -/

/-- The products of one target are in conflict: it is an input, or several sources have it. -/
def GroupConflicts (inputPaths : List Name) (group : Name × List PlannedProduct) : Prop :=
  group.1 ∈ inputPaths ∨ ∃ p ∈ group.2, ∃ q ∈ group.2, p.source ≠ q.source

theorem conflictDiagnostic_isSome {inputPaths : List Name} {key : Name} {first : PlannedProduct}
    {rest : List PlannedProduct} :
    (conflictDiagnostic inputPaths key first rest).isSome ↔
      GroupConflicts inputPaths (key, first :: rest) := by
  have hreported : (conflictDiagnostic inputPaths key first rest).isSome ↔
      key ∈ inputPaths ∨ rest.any (·.source ≠ first.source) = true := by
    unfold conflictDiagnostic
    by_cases hinput : key ∈ inputPaths <;>
      by_cases hany : rest.any (·.source ≠ first.source) = true <;>
      simp only [hinput, hany, if_true, if_false, Option.isSome_some, Option.isSome_none,
        or_self, or_true, true_or, Bool.false_eq_true]
  rw [hreported, GroupConflicts]
  refine or_congr_right ⟨fun h => ?_, ?_⟩
  · obtain ⟨p, hp, hne⟩ := List.any_eq_true.mp h
    exact ⟨p, List.mem_cons_of_mem _ hp, first, List.mem_cons_self, of_decide_eq_true hne⟩
  · rintro ⟨p, hp, q, hq, hne⟩
    by_contra hall
    have hsame : ∀ r ∈ first :: rest, r.source = first.source := by simp_all
    exact hne ((hsame p hp).trans (hsame q hq).symm)

@[simp] theorem length_preflightGroup (inputPaths : List Name) (plan : EmitPlan)
    (group : Name × List PlannedProduct) :
    (preflightGroup inputPaths plan group).files.length = plan.files.length := by
  obtain ⟨key, _ | ⟨first, rest⟩⟩ := group
  · rfl
  · cases hdiagnostic : conflictDiagnostic inputPaths key first rest with
    | none => simp [preflightGroup, hdiagnostic]
    | some diagnostic =>
      simp only [preflightGroup, hdiagnostic]
      exact length_foldl_blockProduct (first :: rest) _

theorem output_preflightGroup {inputPaths : List Name} {plan : EmitPlan}
    {group : Name × List PlannedProduct}
    (hin : ∀ p ∈ group.2, p.source.index < plan.files.length) (id : FileId)
    (kind : ProductKind) (path : Path) :
    (preflightGroup inputPaths plan group).output id kind = some path ↔
      (GroupConflicts inputPaths group → ∀ p ∈ group.2, ¬ (p.source = id ∧ p.kind = kind)) ∧
        plan.output id kind = some path := by
  obtain ⟨key, _ | ⟨first, rest⟩⟩ := group
  · simp [preflightGroup]
  · rw [← conflictDiagnostic_isSome]
    unfold preflightGroup
    cases hdiagnostic : conflictDiagnostic inputPaths key first rest with
    | none => simp [hdiagnostic]
    | some diagnostic =>
      have hin' : ∀ p ∈ first :: rest, p.source.index <
          (EmitPlan.mk plan.files plan.programDiagnostics
            (plan.emitDiagnostics ++ [diagnostic])).files.length := hin
      simp only [hdiagnostic, Option.isSome_some, forall_const]
      rw [output_foldl_blockProduct hin']
      cases kind <;> rfl

theorem output_foldl_preflightGroup {inputPaths : List Name}
    {groups : List (Name × List PlannedProduct)} {plan : EmitPlan}
    (hin : ∀ group ∈ groups, ∀ p ∈ group.2, p.source.index < plan.files.length) (id : FileId)
    (kind : ProductKind) (path : Path) :
    (groups.foldl (preflightGroup inputPaths) plan).output id kind = some path ↔
      (∀ group ∈ groups, GroupConflicts inputPaths group →
        ∀ p ∈ group.2, ¬ (p.source = id ∧ p.kind = kind)) ∧ plan.output id kind = some path := by
  induction groups generalizing plan with
  | nil => simp
  | cons group groups ih =>
    obtain ⟨hgroup, hrest⟩ := List.forall_mem_cons.mp hin
    rw [List.foldl_cons, ih (by simpa using hrest), output_preflightGroup hgroup,
      List.forall_mem_cons]
    tauto

/-- A product that would overwrite an input, or that shares its path with a product of another
source. -/
def Conflicts (files : List ProgramFile) (products : List PlannedProduct)
    (product : PlannedProduct) : Prop :=
  (∃ file ∈ files, pathKey file.hostPath = product.key) ∨
    ∃ other ∈ products, other.source ≠ product.source ∧ other.key = product.key

/-- Preflight empties the slots of the products in conflict, and no others. -/
theorem output_preflight {plan : EmitPlan} {files : List ProgramFile}
    {products : List PlannedProduct}
    (hin : ∀ p ∈ products, p.source.index < plan.files.length) (id : FileId)
    (kind : ProductKind) (path : Path) :
    (plan.preflight files products).output id kind = some path ↔
      (∀ p ∈ products, p.source = id → p.kind = kind → ¬ Conflicts files products p) ∧
        plan.output id kind = some path := by
  have hmem : ∀ group ∈ groupByKey PlannedProduct.key products, ∀ p,
      p ∈ group.2 ↔ p ∈ products ∧ p.key = group.1 := by
    intro group hgroup p
    rw [(mem_groupByKey.mp hgroup).1]
    simp
  rw [preflight, output_foldl_preflightGroup
    fun group hgroup p hp => hin p ((hmem group hgroup p).mp hp).1]
  refine and_congr_left' ⟨fun h p hp hsource hkind hconflict => ?_, ?_⟩
  · obtain ⟨group, hgroup, hkey⟩ := exists_group PlannedProduct.key hp
    have hp' := (hmem group hgroup p).mpr ⟨hp, hkey.symm⟩
    refine h group hgroup ?_ p hp' ⟨hsource, hkind⟩
    rcases hconflict with ⟨file, hfile, heq⟩ | ⟨q, hq, hne, heq⟩
    · exact .inl (List.mem_map.mpr ⟨file, hfile, heq.trans hkey.symm⟩)
    · exact .inr ⟨q, (hmem group hgroup q).mpr ⟨hq, heq.trans hkey.symm⟩, p, hp', hne⟩
  · rintro h group hgroup hconflict p hp ⟨hsource, hkind⟩
    obtain ⟨hp, hkey⟩ := (hmem group hgroup p).mp hp
    refine h p hp hsource hkind ?_
    rcases hconflict with hinput | ⟨q, hq, r, hr, hne⟩
    · obtain ⟨file, hfile, heq⟩ := List.mem_map.mp hinput
      exact .inl ⟨file, hfile, heq.trans hkey.symm⟩
    · obtain ⟨hq, hqkey⟩ := (hmem group hgroup q).mp hq
      obtain ⟨hr, hrkey⟩ := (hmem group hgroup r).mp hr
      by_cases hqp : q.source = p.source
      · exact .inr ⟨r, hr, fun hrp => hne (hqp.trans hrp.symm), hrkey.trans hkey.symm⟩
      · exact .inr ⟨q, hq, hqp, hqkey.trans hkey.symm⟩

end EmitPlan

/-! ## The products of a program -/

theorem source_of_mem_productsOf {paths : EmitPaths} {options : CompilerOptions}
    {capabilities : CapabilityAnalysis} {file : ProgramFile} {p : PlannedProduct}
    (h : p ∈ productsOf paths options capabilities file) : p.source = file.id := by
  unfold productsOf productsFor at h
  grind

theorem kind_of_mem_productsFor {paths : EmitPaths} {options : CompilerOptions}
    {capabilities : CapabilityAnalysis} {file : ProgramFile} {capability : CapabilityTarget}
    {p : PlannedProduct} (h : p ∈ productsFor paths options capabilities file capability) :
    p.kind = .map ∨ p.kind = if capability == .declaration then .declaration else .javascript := by
  unfold productsFor at h
  grind

theorem productsFor_slots (paths : EmitPaths) (options : CompilerOptions)
    (capabilities : CapabilityAnalysis) (file : ProgramFile) (capability : CapabilityTarget) :
    (productsFor paths options capabilities file capability).Pairwise EmitPlan.SlotsDiffer := by
  unfold productsFor EmitPlan.SlotsDiffer
  grind

theorem productsOf_slots (paths : EmitPaths) (options : CompilerOptions)
    (capabilities : CapabilityAnalysis) (file : ProgramFile) :
    (productsOf paths options capabilities file).Pairwise EmitPlan.SlotsDiffer := by
  unfold productsOf
  split
  · exact List.Pairwise.nil
  · have htargets : options.requestedEmitTargets.Pairwise (· ≠ ·) := by
      unfold CompilerOptions.requestedEmitTargets
      cases options.emitDeclarationOnly <;> cases options.declaration <;> decide
    refine List.pairwise_flatMap.mpr
      ⟨fun capability _ => productsFor_slots paths options capabilities file capability,
        htargets.imp fun {target target'} hne p hp q hq hmap hmap' _ hkind => ?_⟩
    have hp := (kind_of_mem_productsFor hp).resolve_left hmap
    have hq := (kind_of_mem_productsFor hq).resolve_left hmap'
    cases target <;> cases target' <;> simp_all

namespace Program

theorem ids_nodup (program : Program) : (program.files.map (·.id)).Nodup := by
  rw [program.id_eq, List.Nodup, List.pairwise_map]
  exact List.nodup_range.imp fun hne heq => hne (by simpa using heq)

end Program

section

variable (program : Program) (options : CompilerOptions) (provenance : ProjectProvenance)
  (capabilities : CapabilityAnalysis)

theorem plannedProducts_slots :
    (plannedProducts program options provenance capabilities).Pairwise EmitPlan.SlotsDiffer := by
  unfold plannedProducts
  split
  · exact List.Pairwise.nil
  · refine List.pairwise_flatMap.mpr ⟨fun file _ => productsOf_slots _ _ _ _,
      (List.pairwise_map.mp program.ids_nodup).imp fun hne p hp q hq _ _ hsource => ?_⟩
    rw [source_of_mem_productsOf hp, source_of_mem_productsOf hq] at hsource
    exact absurd hsource hne

variable {program options provenance capabilities}

/-- A slot belongs to one product. -/
theorem eq_of_slot {p q : PlannedProduct}
    (hp : p ∈ plannedProducts program options provenance capabilities)
    (hq : q ∈ plannedProducts program options provenance capabilities) (hmap : p.kind ≠ .map)
    (hsource : p.source = q.source) (hkind : p.kind = q.kind) : p = q := by
  by_contra hne
  exact (plannedProducts_slots program options provenance capabilities).forall hp hq hne
    hmap (hkind ▸ hmap) hsource hkind

theorem lt_fileSlots {file : ProgramFile} (h : file ∈ program.files) :
    file.id.index < (program.files.map (·.id.index + 1)).foldl max 0 := by
  have hle : ∀ (slots : List Nat) (start n : Nat), n ≤ start ∨ n ∈ slots →
      n ≤ slots.foldl max start := by
    intro slots
    induction slots with
    | nil => simp
    | cons m slots ih =>
      intro start n h
      refine ih (max start m) n ?_
      rcases h with h | h
      · exact .inl (h.trans (le_max_left _ _))
      · rcases List.mem_cons.mp h with rfl | h
        · exact .inl (le_max_right _ _)
        · exact .inr h
  exact hle _ 0 (file.id.index + 1) (.inr (List.mem_map_of_mem (f := (·.id.index + 1)) h))

theorem source_lt_fileSlots {p : PlannedProduct}
    (h : p ∈ plannedProducts program options provenance capabilities) :
    p.source.index < (program.files.map (·.id.index + 1)).foldl max 0 := by
  unfold plannedProducts at h
  split at h
  · simp at h
  · obtain ⟨file, hfile, hp⟩ := List.mem_flatMap.mp h
    exact source_of_mem_productsOf hp ▸ lt_fileSlots hfile

/-- The slots do not depend on what is reported. -/
@[simp] theorem EmitPlan.output_mk (plan : EmitPlan) (program emit : List Diagnostic) (id : FileId)
    (kind : ProductKind) :
    (EmitPlan.mk plan.files program emit).output id kind = plan.output id kind := by
  cases kind <;> rfl

theorem EmitPlan.output_empty (fileCount : Nat) (id : FileId) (kind : ProductKind) :
    (EmitPlan.empty fileCount).output id kind = none := by
  cases kind <;> simp [EmitPlan.empty, EmitPlan.output, List.getElem?_replicate]

/-- A slot of the finished plan holds a planned product that is in no conflict. -/
theorem EmitPlan.output_forProgram (id : FileId) (kind : ProductKind) (path : Path) :
    (EmitPlan.forProgram program options provenance capabilities).output id kind = some path ↔
      ∃ p ∈ plannedProducts program options provenance capabilities,
        p.kind ≠ .map ∧ p.source = id ∧ p.kind = kind ∧ p.target.path = path ∧
          ¬ Conflicts program.files
            (plannedProducts program options provenance capabilities) p := by
  unfold EmitPlan.forProgram
  set fileSlots := (program.files.map (·.id.index + 1)).foldl max 0 with hslots
  by_cases hnoEmit : options.noEmit = true
  · have hnone := EmitPlan.output_empty fileSlots id kind
    simp only [hnoEmit, if_true, plannedProducts]
    rw [EmitPlan.output_mk, hnone]
    simp
  · simp only [hnoEmit, if_false, Bool.false_eq_true]
    set products := plannedProducts program options provenance capabilities with hproducts
    set start := EmitPlan.mk (EmitPlan.empty fileSlots).files
      (EmitPaths.explicitRootDiagnostics program.files options provenance)
      (EmitPlan.empty fileSlots).emitDiagnostics with hstart
    have hin : ∀ p ∈ products, p.source.index < start.files.length := fun p hp => by
      simpa [hstart, EmitPlan.empty] using source_lt_fileSlots hp
    have hnone : start.output id kind = none :=
      (EmitPlan.output_mk _ _ _ id kind).trans (EmitPlan.output_empty fileSlots id kind)
    have hplanned := EmitPlan.output_foldl_planProduct hin
      (plannedProducts_slots program options provenance capabilities) id kind path
    rw [EmitPlan.output_preflight (by simpa using hin), EmitPlan.output_mk, hplanned, hnone]
    constructor
    · rintro ⟨hfree, ⟨p, hp, hmap, hsource, hkind, hpath⟩ | ⟨-, habsurd⟩⟩
      · exact ⟨p, hp, hmap, hsource, hkind, hpath, hfree p hp hsource hkind⟩
      · cases habsurd
    · rintro ⟨p, hp, hmap, hsource, hkind, hpath, hfree⟩
      refine ⟨fun q hq hqsource hqkind => ?_, .inl ⟨p, hp, hmap, hsource, hkind, hpath⟩⟩
      rwa [← eq_of_slot hp hq hmap (hsource.trans hqsource.symm) (hkind.trans hqkind.symm)]

/-- The slot of a product still holds its path. -/
def EmitPlan.Survives (plan : EmitPlan) (product : PlannedProduct) : Prop :=
  plan.output product.source product.kind = some product.target.path

theorem EmitPlan.survives_iff {p : PlannedProduct}
    (hp : p ∈ plannedProducts program options provenance capabilities) :
    (EmitPlan.forProgram program options provenance capabilities).Survives p ↔
      p.kind ≠ .map ∧
        ¬ Conflicts program.files
          (plannedProducts program options provenance capabilities) p := by
  rw [EmitPlan.Survives, EmitPlan.output_forProgram]
  constructor
  · rintro ⟨q, hq, hmap, hsource, hkind, -, hfree⟩
    rw [← eq_of_slot hq hp hmap hsource hkind]
    exact ⟨hmap, hfree⟩
  · rintro ⟨hmap, hfree⟩
    exact ⟨p, hp, hmap, rfl, rfl, rfl, hfree⟩

end

/-- Emit never overwrites: surviving products of different sources have different normalised host
paths, none of them is the path of an input, every output of the plan is a planned product that
survives, and a product in no conflict survives. -/
theorem EmitPlan.forProgram_safe (program : Program) (options : CompilerOptions)
    (provenance : ProjectProvenance) (capabilities : CapabilityAnalysis) :
    let products := plannedProducts program options provenance capabilities
    let plan := EmitPlan.forProgram program options provenance capabilities
    (∀ p ∈ products, ∀ q ∈ products, plan.Survives p → plan.Survives q → p.source ≠ q.source →
        pathKey p.target.hostPath ≠ pathKey q.target.hostPath) ∧
      (∀ p ∈ products, plan.Survives p →
        ∀ file ∈ program.files, pathKey file.hostPath ≠ pathKey p.target.hostPath) ∧
      (∀ id kind path, plan.output id kind = some path →
        ∃ p ∈ products, p.source = id ∧ p.kind = kind ∧ p.target.path = path ∧ plan.Survives p) ∧
      ∀ p ∈ products, p.kind ≠ .map → ¬ Conflicts program.files products p → plan.Survives p := by
  refine ⟨fun p hp q hq hsp hsq hne hkey => ?_, fun p hp hsp file hfile hkey => ?_,
    fun id kind path h => ?_, fun p hp hmap hfree => (survives_iff hp).mpr ⟨hmap, hfree⟩⟩
  · exact ((survives_iff hp).mp hsp).2 (.inr ⟨q, hq, hne.symm, hkey.symm⟩)
  · exact ((survives_iff hp).mp hsp).2 (.inl ⟨file, hfile, hkey⟩)
  · obtain ⟨p, hp, hmap, hsource, hkind, hpath, hfree⟩ := output_forProgram id kind path |>.mp h
    exact ⟨p, hp, hsource, hkind, hpath, (survives_iff hp).mpr ⟨hmap, hfree⟩⟩

/-- `a.ts` and `a.tsx` both ask for `a.js`, and `b.ts` is written. -/
example :
    let program := Program.ofInputs <| ["a.ts", "a.tsx", "b.ts"].map fun name =>
      (⟨name.toList⟩, ⟨("/p/" ++ name).toList⟩)
    let options := CompilerOptions.mk none none none false false false false false false
    let plan := EmitPlan.forProgram program options ⟨none, fun _ => none, fun _ => none⟩
      fun _ _ => true
    plan.files.map (·.javascript) = [none, none, some ⟨"b.js".toList⟩] ∧
      plan.emitDiagnostics.map (·.code) = [5056] := by
  decide +kernel

end Tsz.Project
