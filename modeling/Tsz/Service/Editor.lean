import Tsz.Service.Session

/-!
# Editors

An editor has texts of its own and tells the server what happens to them. Whatever it asks in
between, the server holds the same texts in the end, with the same numbers of changes.

## Main definitions

* `Edit` — what happens to a text, and `Edit.request` — what the server is told.
* `Message` — an edit, or a request that leaves the texts.
* `follow` — the texts of the editor behind its messages.

## Main results

* `serve_follows` — the texts of the server are those of the editor.
-/

namespace Tsz.Service

open Sorting (SortedMap)
open Tsz.Program (CompilerOptions)
open Decimals (number_toDigits isDigits_toDigits)
open Tsz.Project (Name)
open Tsz.Project.Config (Json)
open Tsz.Syntax
open Tsz.Syntax.SourceCoordinateIndex

/-! ## The texts of an editor -/

structure Buffer where
  text : List Char
  version : Nat

/-- Texts by the normal spellings of their paths. -/
abbrev Buffers := Name → Option Buffer

inductive Edit
  | openFile (path : Name) (text : List Char)
  | replace (path : Name) (text : List Char)
  | change (path : Name) (before removed inserted after : List Char)
  | close (path : Name)

namespace Edit

def path : Edit → Name
  | openFile path _ | replace path _ | change path _ _ _ _ | close path => path

/-- What an edit makes of a text, unless it is none of the text. Positions count lines and columns
in 32 bits. -/
def apply : Edit → Option Buffer → Option (Option Buffer)
  | openFile _ text, _ => some (some ⟨text, 1⟩)
  | replace _ text, some buffer => some (some ⟨text, buffer.version + 1⟩)
  | change _ before removed inserted after, some buffer =>
    if buffer.text = before ++ (removed ++ after) ∧ utf8Length buffer.text < u32Max then
      some (some ⟨before ++ (inserted ++ after), buffer.version + 1⟩)
    else none
  | close _, _ => some none
  | _, none => none

def run (edit : Edit) (buffers : Buffers) : Option Buffers :=
  (edit.apply (buffers (normalizePath edit.path))).map
    (Function.update buffers (normalizePath edit.path))

def command : Edit → String
  | openFile _ _ => "open"
  | replace _ _ | change _ _ _ _ _ => "change"
  | close _ => "close"

/-- A change names the positions of its ends in the text in front of it. -/
def arguments : Edit → List (Name × Json)
  | openFile path text | replace path text =>
    [field "file" (.string path), field "fileContent" (.string text)]
  | change path before removed inserted after =>
    let start := positionBehind before (removed ++ after)
    let stop := positionBehind (before ++ removed) after
    [field "file" (.string path), field "line" (ofNat start.1), field "offset" (ofNat start.2),
      field "endLine" (ofNat stop.1), field "endOffset" (ofNat stop.2),
      field "insertString" (.string inserted)]
  | close path => [field "file" (.string path)]

def request (sequence : Nat) (edit : Edit) : Json :=
  requestOf sequence edit.command edit.arguments

end Edit

/-- Commands that may change the texts, or end the session. -/
def Command.touchesTexts : Command → Bool
  | .openFile | .close | .change | .reset | .exit => true
  | _ => false

def leavesTexts (request : Json) : Bool :=
  !(commands.lookup (commandOf request)).any Command.touchesTexts

inductive Message
  | edit (sequence : Nat) (edit : Edit)
  | other (request : Json)

def Message.request : Message → Json
  | edit sequence made => made.request sequence
  | other request => request

/-- The texts of an editor behind its messages. -/
def follow (buffers : Buffers) : List Message → Option Buffers
  | [] => some buffers
  | .edit _ edit :: messages => (edit.run buffers).bind (follow · messages)
  | .other request :: messages => if leavesTexts request then follow buffers messages else none

def LanguageService.buffers (service : LanguageService) : Buffers := fun path =>
  (service.files.get? path).map fun file => ⟨file.source.text, file.version⟩

/-! ## Arguments -/

theorem asU64_ofNat {n : Nat} (h : n < 2 ^ 64) : asU64 (ofNat n) = some n := by
  have hdigits : (Nat.toDigits 10 n).all Char.isDigit := List.all_eq_true.mpr (isDigits_toDigits n)
  simp only [asU64, ofNat, number_toDigits]
  rw [if_pos ⟨Nat.toDigits_ne_nil, hdigits, h⟩]

theorem numberArgument_eq {arguments : Json} {name : String} {n : Nat}
    (hget : arguments.get name = some (ofNat n)) (hn : n ≤ u32Max) :
    numberArgument arguments name = .ok n := by
  have hlt : n < 2 ^ 64 := lt_of_le_of_lt hn (by decide)
  rw [numberArgument, hget, Option.bind_some, asU64_ofNat hlt]
  exact if_pos hn

theorem positionBehind_le {before after : List Char}
    (h : utf8Length (before ++ after) < u32Max) :
    (positionBehind before after).1 ≤ u32Max ∧ (positionBehind before after).2 ≤ u32Max := by
  have hlines := lineBreaks_le after before
  obtain ⟨front, hfront⟩ := lastLine_suffix after [] before
  have hunits := utf16Length_le (lastLine after [] before)
  have hlength := congrArg utf8Length hfront
  rw [List.nil_append, utf8Length_append] at hlength
  rw [utf8Length_append] at h
  constructor
  · change lineBreaks after before + 1 ≤ u32Max
    omega
  · change utf16Length (lastLine after [] before) + 1 ≤ u32Max
    omega

/-! ## What the server makes of an edit -/

namespace Edit

variable {service : LanguageService}

/-- The text behind a change is the one that the editor has. -/
theorem changedText_change {path : Name} {before removed inserted after : List Char}
    {source : SourceText} (hsource : service.source path = .ok source)
    (htext : source.text = before ++ (removed ++ after))
    (hlength : utf8Length source.text < u32Max) :
    service.changedText path (.object (arguments (.change path before removed inserted after))) =
      .ok (before ++ (inserted ++ after)) := by
  have hstart := positionBehind_le (htext ▸ hlength)
  have hstop : (positionBehind (before ++ removed) after).1 ≤ u32Max ∧
      (positionBehind (before ++ removed) after).2 ≤ u32Max := by
    refine positionBehind_le ?_
    rw [List.append_assoc, ← htext]
    exact hlength
  have hbyteStart : source.byteOffset (positionBehind before (removed ++ after)).1
      (positionBehind before (removed ++ after)).2 = some (utf8Length before) := by
    rw [SourceText.byteOffset, source.isIndex, htext]
    exact byteOffset_append (htext ▸ hlength.le)
  have hbyteStop : source.byteOffset (positionBehind (before ++ removed) after).1
      (positionBehind (before ++ removed) after).2 = some (utf8Length (before ++ removed)) := by
    rw [SourceText.byteOffset, source.isIndex, htext, ← List.append_assoc]
    refine byteOffset_append ?_
    rw [List.append_assoc, ← htext]
    exact hlength.le
  have hfront : textSlice source.text 0 (utf8Length before) = some before := by
    have h := textSlice_append [] before (removed ++ after)
    rwa [List.nil_append, ← htext, utf8Length, Nat.zero_add] at h
  have hback : textSlice source.text (utf8Length (before ++ removed)) (utf8Length source.text) =
      some after := by
    have h := textSlice_append (before ++ removed) after []
    rwa [List.append_nil, ← utf8Length_append, List.append_assoc, ← htext] at h
  have hle : ¬ utf8Length before > utf8Length (before ++ removed) := by
    rw [utf8Length_append]
    omega
  set given : Json := .object (arguments (.change path before removed inserted after)) with hgiven
  have hline : numberArgument given "line" = .ok _ := numberArgument_eq rfl hstart.1
  have hoffset : numberArgument given "offset" = .ok _ := numberArgument_eq rfl hstart.2
  have hendLine : numberArgument given "endLine" = .ok _ := numberArgument_eq rfl hstop.1
  have hendOffset : numberArgument given "endOffset" = .ok _ := numberArgument_eq rfl hstop.2
  have hcontent : given.get "fileContent" = none := rfl
  have hsomeLine : given.get "endLine" = some _ := rfl
  have hsomeOffset : given.get "endOffset" = some _ := rfl
  have hinserted : given.get "insertString" = some (.string inserted) := rfl
  unfold LanguageService.changedText
  simp only [hsource, bind, Except.bind, hcontent, Option.bind_none, hline, hoffset, hsomeLine,
    hendLine, hsomeOffset, hendOffset, hbyteStart, hbyteStop, hle, if_false, hinserted,
    Option.bind_some, Json.asStr, Option.getD_some, hfront, hback]

theorem exists_openFile {path : Name} {buffer : Buffer}
    (h : service.buffers (normalizePath path) = some buffer) :
    ∃ file, service.files.get? (normalizePath path) = some file ∧
      service.source path = .ok file.source ∧ buffer = ⟨file.source.text, file.version⟩ := by
  obtain ⟨file, hfile, rfl⟩ := Option.map_eq_some_iff.mp h
  refine ⟨file, hfile, ?_, rfl⟩
  rw [LanguageService.source, LanguageService.sourceCoordinates, hfile]
  rfl

theorem buffers_insert (files : SortedMap Name OpenFile) (key : Name) (file : OpenFile)
    (options : CompilerOptions) (snapshot : Option CompileOutput) :
    (LanguageService.mk options (files.insert key file) snapshot).buffers =
      Function.update (LanguageService.mk options files snapshot).buffers key
        (some ⟨file.source.text, file.version⟩) := by
  funext other
  unfold LanguageService.buffers
  rw [SortedMap.get?_insert, Function.update_apply]
  split_ifs <;> rfl

theorem buffers_change {path : Name} {file : OpenFile}
    (h : service.files.get? (normalizePath path) = some file) (text : List Char) :
    (service.change path text).buffers = Function.update service.buffers (normalizePath path)
      (some ⟨text, file.version + 1⟩) := by
  unfold LanguageService.change
  simp only [h]
  exact buffers_insert _ _ _ _ _

theorem buffers_close (path : Name) :
    (service.close path).buffers = Function.update service.buffers (normalizePath path) none := by
  unfold LanguageService.close
  dsimp only
  split
  · funext other
    unfold LanguageService.buffers
    rw [SortedMap.get?_erase, Function.update_apply]
    split_ifs <;> rfl
  · next hnone =>
    rw [eq_comm, Function.update_eq_self_iff]
    exact (congrArg (Option.map _) hnone).symm

variable [Compiler] [JsonCodec] [LossyUtf8]

omit [Compiler] [JsonCodec] [LossyUtf8] in
theorem fileArgument_eq (edit : Edit) :
    fileArgument (.object edit.arguments) = .ok edit.path := by
  cases edit <;> rfl

theorem dispatch_edit (disk : Disk) {edit : Edit} {after : Option Buffer}
    (h : edit.apply (service.buffers (normalizePath edit.path)) = some after) :
    ∃ behind, dispatch disk service edit.command.toList (.object edit.arguments) =
        (.ok none, behind) ∧
      behind.buffers = Function.update service.buffers (normalizePath edit.path) after := by
  have hpath := fileArgument_eq edit
  have hopen : commands.lookup "open".toList = some .openFile := by decide
  have hchange : commands.lookup "change".toList = some .change := by decide
  have hclose : commands.lookup "close".toList = some .close := by decide
  unfold dispatch
  cases edit with
  | openFile path text =>
    obtain rfl := Option.some.inj h
    refine ⟨service.openFile path text, ?_, buffers_insert _ _ _ _ _⟩
    simp only [command, hopen, hpath, bind, Except.bind]
    rfl
  | replace path text =>
    cases hbuffer : service.buffers (normalizePath path) with
    | none =>
      change apply _ (service.buffers (normalizePath path)) = _ at h
      rw [hbuffer] at h
      cases h
    | some buffer =>
      change apply _ (service.buffers (normalizePath path)) = _ at h
      rw [hbuffer] at h
      obtain rfl := Option.some.inj h
      obtain ⟨file, hfile, hsource, rfl⟩ := exists_openFile hbuffer
      refine ⟨service.change path text, ?_, buffers_change hfile text⟩
      have htext : service.changedText path (.object (arguments (.replace path text))) =
          .ok text := by
        unfold LanguageService.changedText
        rw [hsource]
        rfl
      simp only [command, hchange, hpath, bind, Except.bind, Edit.path, LanguageService.applyChange,
        htext]
      rfl
  | change path before removed inserted after =>
    cases hbuffer : service.buffers (normalizePath path) with
    | none =>
      change apply _ (service.buffers (normalizePath path)) = _ at h
      rw [hbuffer] at h
      cases h
    | some buffer =>
      change apply _ (service.buffers (normalizePath path)) = _ at h
      rw [hbuffer, apply] at h
      obtain ⟨⟨htext, hlength⟩, heq⟩ := Option.ite_none_right_eq_some.mp h
      obtain rfl := Option.some.inj heq
      obtain ⟨file, hfile, hsource, rfl⟩ := exists_openFile hbuffer
      refine ⟨service.change path _, ?_, buffers_change hfile _⟩
      simp only [command, hchange, hpath, bind, Except.bind, Edit.path, LanguageService.applyChange,
        changedText_change hsource htext hlength]
      rfl
  | close path =>
    obtain rfl := Option.some.inj h
    refine ⟨service.close path, ?_, buffers_close path⟩
    simp only [command, hclose, hpath, bind, Except.bind]
    rfl

theorem handle_request (disk : Disk) {server : Server} {edit : Edit} {buffers : Buffers}
    (h : edit.run server.service.buffers = some buffers) (sequence : Nat) :
    ∃ response behind, server.handle disk (edit.request sequence) = some (response, behind) ∧
      succeeded response ∧ behind.service.buffers = buffers := by
  obtain ⟨after, happly, rfl⟩ := Option.map_eq_some_iff.mp h
  obtain ⟨behind, hdispatch, hbuffers⟩ := dispatch_edit disk happly
  have hcommand : commandOf (edit.request sequence) = edit.command.toList := rfl
  have harguments : (edit.request sequence).get "arguments" = some (.object edit.arguments) := rfl
  refine ⟨response (server.sequence + 1) (sequenceOf (edit.request sequence))
    edit.command.toList true none none, ⟨behind, server.sequence + 1⟩, ?_, rfl, hbuffers⟩
  rw [Server.handle, hcommand, harguments, Option.getD_some]
  simp only [hdispatch]

omit [Compiler] [JsonCodec] [LossyUtf8] in
theorem command_ne_exit (edit : Edit) : edit.command.toList ≠ "exit".toList := by
  intro heq
  have hcommand : edit.command = "exit" := String.toList_inj.mp heq
  cases edit <;> simp [command] at hcommand

end Edit

section

variable [Compiler] [JsonCodec] [LossyUtf8]

theorem buffers_dispatch (disk : Disk) (service : LanguageService) {name : Name}
    (h : (commands.lookup name).any Command.touchesTexts = false) (arguments : Json) :
    (dispatch disk service name arguments).2.buffers = service.buffers := by
  cases hchange : (commands.lookup name).any Command.isChange with
  | false =>
    have hforget := forget_dispatch disk service hchange arguments
    have hbuffers := congrArg LanguageService.buffers hforget
    exact hbuffers
  | true =>
    have hcommand : commands.lookup name = some .compilerOptionsForInferredProjects := by
      cases hname : commands.lookup name with
      | none => rw [hname] at hchange; cases hchange
      | some command =>
        rw [hname] at h hchange
        cases command <;>
          first | rfl | exact absurd h (by decide) | exact absurd hchange (by decide)
    unfold dispatch
    rw [hcommand]
    rfl

theorem buffers_handle {disk : Disk} {server behind : Server} {request response : Json}
    (hleaves : leavesTexts request) (h : server.handle disk request = some (response, behind)) :
    behind.service.buffers = server.service.buffers := by
  have hbuffers := buffers_dispatch disk server.service (by simpa [leavesTexts] using hleaves)
    ((request.get "arguments").getD .null)
  unfold Server.handle at h
  dsimp only at h
  split at h
  · obtain ⟨-, rfl⟩ := Prod.mk.inj (Option.some.inj h)
    exact hbuffers
  · obtain ⟨-, rfl⟩ := Prod.mk.inj (Option.some.inj h)
    exact hbuffers
  · cases h

/-- Edits succeed, and the texts of the server are those of the editor, whatever is asked in
between. Only what is asked in between may make the source panic. -/
theorem serve_follows (disks : Nat → Disk) {server : Server} {messages : List Message}
    {buffers : Buffers} (h : follow server.service.buffers messages = some buffers) :
    let served := server.serve disks (messages.map Message.request)
    (served.ending = .ended ∧ served.server.service.buffers = buffers ∨
      served.ending = .panicked ∧
        ∃ request, messages[served.responses.length]? = some (.other request)) ∧
    ∀ (i sequence : Nat) (edit : Edit) (response : Json),
      messages[i]? = some (.edit sequence edit) → served.responses[i]? = some response →
        succeeded response := by
  induction messages generalizing server with
  | nil =>
    obtain rfl := Option.some.inj h
    refine ⟨.inl ⟨rfl, rfl⟩, fun i sequence edit response hmessage => ?_⟩
    cases hmessage
  | cons message messages ih =>
    dsimp only
    rw [List.map_cons, Server.serve, Server.serveWith]
    dsimp only [id_eq]
    cases message with
    | edit sequence edit =>
      obtain ⟨next, hnext, hfollow⟩ := Option.bind_eq_some_iff.mp h
      obtain ⟨response, behind, hhandle, hsuccess, rfl⟩ :=
        edit.handle_request (disks server.sequence) hnext sequence
      have hexit : commandOf (Message.edit sequence edit).request ≠ "exit".toList :=
        edit.command_ne_exit
      obtain ⟨hends, hall⟩ := ih hfollow
      have hhandle' : Server.handle (disks server.sequence) server
          (Message.edit sequence edit).request = some (response, behind) := hhandle
      simp only [hhandle', hexit, if_false]
      refine ⟨hends, fun i sequence edit other hmessage hresponse => ?_⟩
      cases i with
      | zero =>
        obtain rfl := Option.some.inj hresponse
        exact hsuccess
      | succ i => exact hall i sequence edit other hmessage hresponse
    | other request =>
      obtain ⟨hleaves, hfollow⟩ := Option.ite_none_right_eq_some.mp h
      have hexit : commandOf (Message.other request).request ≠ "exit".toList := by
        intro heq
        have hname : commandOf request = "exit".toList := heq
        rw [leavesTexts, hname] at hleaves
        exact absurd hleaves (by decide)
      cases hhandle : Server.handle (disks server.sequence) server
        (Message.other request).request with
      | none =>
        refine ⟨.inr ⟨rfl, request, rfl⟩, fun i sequence edit response _ hresponse => ?_⟩
        cases hresponse
      | some answer =>
        obtain ⟨response, behind⟩ := answer
        rw [← buffers_handle hleaves hhandle] at hfollow
        obtain ⟨hends, hall⟩ := ih hfollow
        simp only [hexit, if_false]
        refine ⟨hends, fun i sequence edit other hmessage hresponse => ?_⟩
        cases i with
        | zero => cases hmessage
        | succ i => exact hall i sequence edit other hmessage hresponse

end

section

local instance editedCodec : JsonCodec := plainCodec

local instance editedUtf8 : LossyUtf8 := plainUtf8

local instance editedCompiler : Compiler := emptyCompiler

/-- A text is opened and changed behind its first line, and read in between. -/
def editedSession : List Message :=
  [.edit 1 (.openFile "d\\a.ts".toList "é\r\nlet x".toList),
    .other (requestOf 2 "tsz/text" [field "file" (ofText "d/a.ts")]),
    .edit 3 (.change "d/a.ts".toList "é\r\nlet ".toList ['x'] "yz".toList [])]

theorem serve_follows_edited :
    let served := Server.serve (fun _ => emptyDisk) {} (editedSession.map Message.request)
    served.ending = .ended ∧
      (served.server.service.buffers "d/a.ts".toList).map Buffer.text =
        some "é\r\nlet yz".toList := by
  have hfollow : ∃ buffers, follow (LanguageService.buffers {}) editedSession = some buffers ∧
      (buffers "d/a.ts".toList).map Buffer.text = some "é\r\nlet yz".toList := ⟨_, rfl, rfl⟩
  obtain ⟨buffers, hbuffers, htext⟩ := hfollow
  have hserver : follow (Server.service {}).buffers editedSession = some buffers := hbuffers
  obtain ⟨⟨hending, rfl⟩ | ⟨hpanic, -⟩, -⟩ := serve_follows (fun _ => emptyDisk) hserver
  · exact ⟨hending, htext⟩
  · cases hpanic

end

end Tsz.Service
