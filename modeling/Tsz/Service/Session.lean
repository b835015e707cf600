import Tsz.Service.Server

/-!
# Sessions

A session is the run of a server over the messages of its input. What is kept of the last
compilation never shows in the responses, and a request that fails leaves no trace.

## Main definitions

* `readMessages` — the messages of an input.
* `Server.serve` — what messages are answered.
* `accepted` — the requests of a session that changed something.

## Main results

* `run_eq` — a run answers the messages of its input.
* `run_responses` — the responses are those of the requests, in their order.
* `serve_forgets` — the responses are those of a server that keeps no compilation.
* `serve_accepted` — a session leaves what its accepted requests leave.
-/

namespace Tsz.Service

open Tsz.Jsonc (SerdeJson plainSerde utf8Bytes length_utf8Bytes)
open Tsz.Project (Name)
open Tsz.Project.Config (Json)
open Tsz.Syntax (utf8Length)

/-! ## Messages -/

section

variable [JsonCodec]

/-- The messages of an input, and why it ends. -/
def readMessages (input : List UInt8) : List Json × Ending :=
  match _hread : readFramedMessage input with
  | .error error => ([], .failed error)
  | .ok none => ([], .ended)
  | .ok (some (message, rest)) =>
    let (messages, ending) := readMessages rest
    (message :: messages, ending)
termination_by input.length
decreasing_by exact length_readFramedMessage _hread

theorem readMessages_cons {input rest : List UInt8} {message : Json}
    (h : readFramedMessage input = .ok (some (message, rest))) :
    readMessages input = (message :: (readMessages rest).1, (readMessages rest).2) := by
  rw [readMessages]
  split
  · next heq => rw [h] at heq; cases heq
  · next heq => rw [h] at heq; cases heq
  · next heq =>
    rw [h] at heq
    cases heq
    rfl

theorem readMessages_error {input : List UInt8} {error : ReadError}
    (h : readFramedMessage input = .error error) : readMessages input = ([], .failed error) := by
  rw [readMessages]
  split
  · next heq =>
    rw [h] at heq
    cases heq
    rfl
  · next heq => rw [h] at heq; cases heq
  · next heq => rw [h] at heq; cases heq

theorem readMessages_end {input : List UInt8} (h : readFramedMessage input = .ok none) :
    readMessages input = ([], .ended) := by
  rw [readMessages]
  split
  · next heq => rw [h] at heq; cases heq
  · rfl
  · next heq => rw [h] at heq; cases heq

theorem readMessages_nil : readMessages [] = ([], .ended) := by
  refine readMessages_end ?_
  rw [readFramedMessage, readHeaders]
  rfl

/-- The messages of frames are read one after the other. -/
theorem readMessages_frames {frames : List (Frame × Json)}
    (h : ∀ frame ∈ frames, JsonCodec.fromSlice frame.1.body = some frame.2) (rest : List UInt8) :
    readMessages (frames.flatMap (·.1.bytes) ++ rest) =
      (frames.map (·.2) ++ (readMessages rest).1, (readMessages rest).2) := by
  induction frames with
  | nil => rfl
  | cons frame frames ih =>
    obtain ⟨hframe, hframes⟩ := List.forall_mem_cons.mp h
    have hread := readFramedMessage_frame frame.1 (frames.flatMap (·.1.bytes) ++ rest)
    rw [hframe] at hread
    rw [List.flatMap_cons, List.append_assoc, readMessages_cons hread, ih hframes]
    rfl

end

section

local instance framedCodec : JsonCodec := plainCodec

/-- A frame with a line that is not looked at, and without carriage returns. -/
def typedFrame : Frame where
  lines := ["Content-Type: text".toList, "Content-Length:+4 ".toList]
  carriageReturn := false
  body := utf8Bytes "true".toList
  isLine := by decide
  isLength := by decide
  bounded := by decide

theorem readMessages_frames_typed :
    readMessages (typedFrame.bytes ++ typedFrame.bytes) = ([.bool true, .bool true], .ended) := by
  have hparse : @SerdeJson.parse plainSerde (writeJson (.bool true)) = some (.bool true) := rfl
  have hbody : JsonCodec.fromSlice typedFrame.body = some (.bool true) := fromSlice_writeJson hparse
  have hframes : ∀ frame ∈ [(typedFrame, Json.bool true), (typedFrame, .bool true)],
      JsonCodec.fromSlice frame.1.body = some frame.2 := by
    simp only [List.forall_mem_cons, hbody, true_and]
    exact fun frame h => by cases h
  have hread := readMessages_frames hframes []
  rwa [readMessages_nil, List.append_nil, List.flatMap_cons, List.flatMap_singleton] at hread

end

section

variable [JsonCodec]

/-- A message that the other side reads as it was written. -/
def IsRead (message : Json) : Prop :=
  JsonCodec.fromSlice (JsonCodec.toVec message) = some message ∧
    (JsonCodec.toVec message).length < 2 ^ 63

theorem readMessages_written {messages : List Json} (h : ∀ message ∈ messages, IsRead message) :
    readMessages (messages.flatMap writeFramedMessage) = (messages, .ended) := by
  induction messages with
  | nil => exact readMessages_nil
  | cons message messages ih =>
    obtain ⟨⟨hcodec, hlength⟩, hmessages⟩ := List.forall_mem_cons.mp h
    rw [List.flatMap_cons, readMessages_cons (readFramedMessage_written hlength hcodec _),
      ih hmessages]

end

section

variable [Compiler] [JsonCodec] [LossyUtf8]

/-! ## Responses -/

/-- What messages are answered, why the answers end, and the server behind them. -/
structure Served where
  responses : List Json
  ending : Ending
  server : Server

/-- The answers of a server whose service is prepared in front of each request. -/
def Server.serveWith (prepare : LanguageService → LanguageService) (disks : Nat → Disk)
    (server : Server) : List Json → Served
  | [] => ⟨[], .ended, server⟩
  | request :: requests =>
    match { server with service := prepare server.service }.handle (disks server.sequence)
      request with
    | none => ⟨[], .panicked, server⟩
    | some (response, behind) =>
      if commandOf request = "exit".toList then ⟨[response], .exited, behind⟩
      else
        let served := behind.serveWith prepare disks requests
        { served with responses := response :: served.responses }

def Server.serve : (Nat → Disk) → Server → List Json → Served := Server.serveWith id

/-- A run answers the messages of its input. -/
theorem run_eq (disks : Nat → Disk) (server : Server) (input : List UInt8) :
    server.run disks input =
      let served := server.serve disks (readMessages input).1
      (served.responses.flatMap writeFramedMessage,
        if served.ending = .ended then (readMessages input).2 else served.ending) := by
  fun_induction Server.run disks server input with
  | case1 server input error hread => rw [readMessages_error hread]; rfl
  | case2 server input hread => rw [readMessages_end hread]; rfl
  | case3 server input request rest hread hpanic =>
    rw [readMessages_cons hread, Server.serve, Server.serveWith]
    simp only [id_eq, hpanic]
    rfl
  | case4 server input request rest hread response behind hhandle written hexit =>
    rw [readMessages_cons hread, Server.serve, Server.serveWith]
    simp only [id_eq, hhandle, hexit, if_true]
    simp [written]
  | case5 server input request rest hread response behind hhandle written hexit output ending hrest
      ih =>
    rw [hrest] at ih
    obtain ⟨houtput, hending⟩ := Prod.mk.inj ih
    rw [readMessages_cons hread, Server.serve, Server.serveWith]
    simp only [id_eq, hhandle, hexit, if_false, List.flatMap_cons]
    rw [houtput, hending]
    rfl

/-! ### In their order -/

/-- A response to a request, with the number it has among the responses. -/
structure Answers (sequence : Nat) (request response : Json) : Prop where
  number : response.get "seq" = some (ofNat sequence)
  kind : response.get "type" = some (ofText "response")
  requestNumber : response.get "request_seq" = some (ofNat (sequenceOf request))
  requestCommand : response.get "command" = some (.string (commandOf request))
  outcome : (response.get "success" = some (.bool true) ∧ response.get "message" = none) ∨
    response.get "success" = some (.bool false) ∧ (response.get "message").isSome ∧
      response.get "body" = none

theorem answers_of_handle {disk : Disk} {server behind : Server} {request response : Json}
    (h : server.handle disk request = some (response, behind)) :
    Answers (server.sequence + 1) request response ∧ behind.sequence = server.sequence + 1 := by
  unfold Server.handle at h
  dsimp only at h
  split at h
  · next body _ =>
    obtain ⟨rfl, rfl⟩ := Prod.mk.inj (Option.some.inj h)
    refine ⟨⟨rfl, rfl, rfl, rfl, .inl ⟨rfl, ?_⟩⟩, rfl⟩
    cases body <;> rfl
  · obtain ⟨rfl, rfl⟩ := Prod.mk.inj (Option.some.inj h)
    exact ⟨⟨rfl, rfl, rfl, rfl, .inr ⟨rfl, rfl, rfl⟩⟩, rfl⟩
  · cases h

/-- The requests up to the first that ends the session. -/
def untilExit : List Json → List Json
  | [] => []
  | request :: requests =>
    if commandOf request = "exit".toList then [request] else request :: untilExit requests

theorem serveWith_answers (prepare : LanguageService → LanguageService) (disks : Nat → Disk)
    (server : Server) (requests : List Json) :
    let served := server.serveWith prepare disks requests
    (∀ i response, served.responses[i]? = some response →
      ∃ request, (untilExit requests)[i]? = some request ∧
        Answers (server.sequence + i + 1) request response) ∧
    (served.ending ≠ .panicked → served.responses.length = (untilExit requests).length) := by
  induction requests generalizing server with
  | nil => exact ⟨fun i response h => (by cases h), fun _ => rfl⟩
  | cons request requests ih =>
    rw [Server.serveWith, untilExit]
    cases hhandle : Server.handle (disks server.sequence)
      { server with service := prepare server.service } request with
    | none => exact ⟨fun i response h => (by cases h), fun h => absurd rfl h⟩
    | some answer =>
      obtain ⟨response, behind⟩ := answer
      obtain ⟨hanswers, hbehind⟩ := answers_of_handle hhandle
      dsimp only at hanswers hbehind ⊢
      split_ifs with hexit
      · refine ⟨fun i other h => ?_, fun _ => rfl⟩
        cases i with
        | zero =>
          obtain rfl := Option.some.inj h
          exact ⟨request, rfl, hanswers⟩
        | succ i => cases h
      · obtain ⟨hall, hlength⟩ := ih behind
        refine ⟨fun i other h => ?_, fun h => congrArg (· + 1) (hlength h)⟩
        cases i with
        | zero =>
          obtain rfl := Option.some.inj h
          exact ⟨request, rfl, hanswers⟩
        | succ i =>
          obtain ⟨found, hfound, hother⟩ := hall i other h
          refine ⟨found, hfound, ?_⟩
          rw [hbehind] at hother
          rwa [show server.sequence + (i + 1) + 1 = server.sequence + 1 + i + 1 by omega]

/-- The output of a session carries a response to each request up to the one that ends it, in their
order and numbered from one on, unless the source panics at a request. -/
theorem run_responses (disks : Nat → Disk) (input : List UInt8)
    (hread : ∀ response ∈ (Server.serve disks {} (readMessages input).1).responses,
      IsRead response) :
    ∃ responses, readMessages (Server.run disks {} input).1 = (responses, .ended) ∧
      (∀ i response, responses[i]? = some response →
        ∃ request, (untilExit (readMessages input).1)[i]? = some request ∧
          Answers (i + 1) request response) ∧
      ((Server.run disks {} input).2 ≠ .panicked →
        responses.length = (untilExit (readMessages input).1).length) := by
  obtain ⟨hall, hlength⟩ := serveWith_answers id disks {} (readMessages input).1
  refine ⟨_, ?_, fun i response h => ?_, fun h => hlength fun hpanic => h ?_⟩
  · rw [run_eq]
    exact readMessages_written hread
  · simpa using hall i response h
  · rw [run_eq]
    dsimp only [Server.serve]
    rw [hpanic]
    rfl

end

section

local instance askedCodec : JsonCodec := plainCodec

local instance askedUtf8 : LossyUtf8 := plainUtf8

local instance askedCompiler : Compiler := emptyCompiler

def askedSession : List Json :=
  [requestOf 7 "open" [field "file" (ofText "a.ts"), field "fileContent" (ofText "let x")],
    requestOf 8 "tsz/text" [field "file" (ofText "a.ts")],
    requestOf 9 "exit" [],
    requestOf 10 "tsz/text" [field "file" (ofText "a.ts")]]

def askedResponses : List Json :=
  [response 1 7 "open".toList true none none,
    response 2 8 "tsz/text".toList true (some (ofText "let x")) none,
    response 3 9 "exit".toList true none none]

theorem isRead_of_parse {message : Json}
    (h : @SerdeJson.parse plainSerde (writeJson message) = some message)
    (hlength : utf8Length (writeJson message) < 2 ^ 63) : IsRead message :=
  ⟨fromSlice_writeJson h, (length_utf8Bytes _).trans_lt hlength⟩

theorem isRead_askedSession : ∀ request ∈ askedSession, IsRead request := by
  simp only [askedSession, List.forall_mem_cons]
  exact ⟨isRead_of_parse rfl (by decide), isRead_of_parse rfl (by decide),
    isRead_of_parse rfl (by decide), isRead_of_parse rfl (by decide), fun request h => by cases h⟩

theorem isRead_askedResponses : ∀ response ∈ askedResponses, IsRead response := by
  simp only [askedResponses, List.forall_mem_cons]
  exact ⟨isRead_of_parse rfl (by decide), isRead_of_parse rfl (by decide),
    isRead_of_parse rfl (by decide), fun response h => by cases h⟩

theorem responses_askedSession :
    (Server.serve (fun _ => emptyDisk) {} askedSession).responses = askedResponses := rfl

theorem run_responses_asked :
    ∃ responses, readMessages (Server.run (fun _ => emptyDisk) {}
        (askedSession.flatMap writeFramedMessage)).1 = (responses, .ended) ∧
      (∀ i response, responses[i]? = some response →
        ∃ request, (untilExit askedSession)[i]? = some request ∧
          Answers (i + 1) request response) ∧
      ((Server.run (fun _ => emptyDisk) {} (askedSession.flatMap writeFramedMessage)).2 ≠
        .panicked → responses.length = (untilExit askedSession).length) := by
  have hinput : (readMessages (askedSession.flatMap writeFramedMessage)).1 = askedSession := by
    rw [readMessages_written isRead_askedSession]
  have hread := run_responses (fun _ => emptyDisk) (askedSession.flatMap writeFramedMessage)
  rw [hinput, responses_askedSession] at hread
  exact hread isRead_askedResponses

end

section

variable [Compiler] [JsonCodec] [LossyUtf8]

/-! ## What is kept of the last compilation -/

/-- Two answers are the same, up to what is kept of compilations. -/
structure Agree (answer other : Answer (Option Json) × LanguageService) : Prop where
  same : answer.1 = other.1
  service : answer.2.forget = other.2.forget
  current : answer.2.IsCurrent

omit [JsonCodec] [LossyUtf8] in
theorem agree_applying {service : LanguageService} (hservice : service.IsCurrent)
    {change other : Answer LanguageService}
    (h : change.map LanguageService.forget = other.map LanguageService.forget)
    (hcurrent : ∀ changed, change = .ok changed → changed.IsCurrent) (body : Option Json) :
    Agree (service.applying change body) (service.forget.applying other body) := by
  cases change with
  | error failure =>
    cases other with
    | error other =>
      obtain rfl := Except.error.inj h
      exact ⟨rfl, rfl, hservice⟩
    | ok other => cases h
  | ok changed =>
    cases other with
    | error other => cases h
    | ok other => exact ⟨rfl, Except.ok.inj h, hcurrent changed rfl⟩

/-- Whether a compilation is kept does not change what is asked of the service. -/
def Unaffected {α : Type} (service : LanguageService)
    (query : LanguageService → α × LanguageService) : Prop :=
  query service = query service.forget ∧ (query service).2.IsCurrent

omit [JsonCodec] [LossyUtf8] in
theorem unaffected_withCompiledSnapshot {α : Type} {service : LanguageService}
    (h : service.IsCurrent) (asked : CompileOutput → α) :
    Unaffected service (·.withCompiledSnapshot asked) :=
  ⟨LanguageService.withCompiledSnapshot_forget h asked,
    LanguageService.isCurrent_withCompiledSnapshot h asked⟩

omit [JsonCodec] [LossyUtf8] in
theorem unaffected_syntacticDiagnostics {service : LanguageService} (h : service.IsCurrent)
    (path : Name) : Unaffected service (·.syntacticDiagnostics path) := by
  unfold LanguageService.syntacticDiagnostics
  exact unaffected_withCompiledSnapshot h _

omit [JsonCodec] [LossyUtf8] in
theorem unaffected_semanticDiagnostics {service : LanguageService} (h : service.IsCurrent)
    (path : Name) : Unaffected service (·.semanticDiagnostics path) := by
  unfold LanguageService.semanticDiagnostics
  exact unaffected_withCompiledSnapshot h _

omit [JsonCodec] [LossyUtf8] in
theorem unaffected_navigationQuery {α : Type} {service : LanguageService}
    (h : service.IsCurrent) (target : NavigationTarget) (path : Name) (offset : Nat)
    (filesToSearch : List Name) (query : NavigationIndex → α) :
    Unaffected service (·.navigationQuery target path offset filesToSearch query) := by
  unfold LanguageService.navigationQuery
  exact unaffected_withCompiledSnapshot h _

omit [LossyUtf8] in
theorem agree_diagnosticsAnswer {service : LanguageService} (h : service.IsCurrent)
    (query : LanguageService → Name → DiagnosticResult × LanguageService)
    (hquery : ∀ path, Unaffected service (query · path)) (command : String) (arguments : Json) :
    Agree (service.diagnosticsAnswer command arguments query)
      (service.forget.diagnosticsAnswer command arguments query) := by
  unfold LanguageService.diagnosticsAnswer
  split
  · exact ⟨rfl, rfl, h⟩
  · next path _ =>
    obtain ⟨hsame, hcurrent⟩ :
      query service path = query service.forget path ∧ (query service path).2.IsCurrent :=
      hquery path
    rw [← hsame]
    exact ⟨rfl, rfl, hcurrent⟩

omit [JsonCodec] [LossyUtf8] in
theorem agree_navigationAnswer {α : Type} {service : LanguageService} (h : service.IsCurrent)
    (query : LanguageService → Name → Nat → ServiceQuery α × LanguageService)
    (hquery : ∀ path absolute, Unaffected service (query · path absolute))
    (name : Name) (arguments : Json) (body : LanguageService → Name → α → Answer Json) :
    Agree (service.navigationAnswer name arguments query body)
      (service.forget.navigationAnswer name arguments query body) := by
  have hlocation : service.forget.location arguments = service.location arguments := rfl
  unfold LanguageService.navigationAnswer
  rw [hlocation]
  split
  · exact ⟨rfl, rfl, h⟩
  · next path absolute _ =>
    obtain ⟨hsame, hcurrent⟩ :
      query service path absolute = query service.forget path absolute ∧
        (query service path absolute).2.IsCurrent := hquery path absolute
    rw [← hsame]
    exact ⟨rfl, rfl, hcurrent⟩

/-- A request is answered alike whether a compilation is kept or not. -/
theorem agree_dispatch (disk : Disk) {service : LanguageService} (h : service.IsCurrent)
    (name : Name) (arguments : Json) :
    Agree (dispatch disk service name arguments) (dispatch disk service.forget name arguments) := by
  unfold dispatch
  cases commands.lookup name with
  | none => exact ⟨rfl, rfl, h⟩
  | some command =>
    cases command with
    | compilerOptionsForInferredProjects =>
      exact agree_applying h rfl
        (fun changed heq => Except.ok.inj heq ▸ LanguageService.isCurrent_of_eq_none rfl) _
    | configure => exact ⟨rfl, rfl, h⟩
    | exit => exact ⟨rfl, rfl, h⟩
    | openFile =>
      cases fileArgument arguments with
      | error failure => exact ⟨rfl, rfl, h⟩
      | ok path =>
        refine agree_applying h ?_ (fun changed hchanged => ?_) _
        · change Except.map _ ((openContent disk arguments path).bind _) =
            Except.map _ ((openContent disk arguments path).bind _)
          cases openContent disk arguments path with
          | error failure => rfl
          | ok content => rfl
        · change (openContent disk arguments path).bind _ = _ at hchanged
          cases hcontent : openContent disk arguments path with
          | error failure => rw [hcontent] at hchanged; cases hchanged
          | ok content =>
            rw [hcontent] at hchanged
            obtain rfl := Except.ok.inj hchanged
            exact LanguageService.isCurrent_of_eq_none rfl
    | close =>
      cases fileArgument arguments with
      | error failure => exact ⟨rfl, rfl, h⟩
      | ok path =>
        exact ⟨rfl, (LanguageService.close_forget path).symm,
          LanguageService.isCurrent_close h path⟩
    | change =>
      cases fileArgument arguments with
      | error failure => exact ⟨rfl, rfl, h⟩
      | ok path =>
        have htext : service.forget.changedText path arguments =
            service.changedText path arguments := rfl
        refine agree_applying h ?_ (fun changed hchanged => ?_) _
        · change (service.applyChange path arguments).map LanguageService.forget =
            (service.forget.applyChange path arguments).map LanguageService.forget
          unfold LanguageService.applyChange
          rw [htext]
          cases service.changedText path arguments with
          | error failure => rfl
          | ok text => exact congrArg Except.ok (LanguageService.change_forget path text).symm
        · change (service.changedText path arguments).map (service.change path) = _ at hchanged
          cases htext : service.changedText path arguments with
          | error failure => rw [htext] at hchanged; cases hchanged
          | ok text =>
            rw [htext] at hchanged
            obtain rfl := Except.ok.inj hchanged
            exact LanguageService.isCurrent_change h path text
    | syntacticDiagnosticsSync =>
      exact agree_diagnosticsAnswer h (·.syntacticDiagnostics)
        (unaffected_syntacticDiagnostics h) _ _
    | semanticDiagnosticsSync =>
      exact agree_diagnosticsAnswer h (·.semanticDiagnostics)
        (unaffected_semanticDiagnostics h) _ _
    | quickinfo =>
      exact agree_navigationAnswer h (·.quickInfo)
        (fun _ _ => unaffected_navigationQuery h _ _ _ _ _) _ _ _
    | definitionAndBoundSpan =>
      exact agree_navigationAnswer h (·.definitionAndBoundSpan)
        (fun _ _ => unaffected_navigationQuery h _ _ _ _ _) _ _ _
    | definition =>
      exact agree_navigationAnswer h (·.definitionAndBoundSpan)
        (fun _ _ => unaffected_navigationQuery h _ _ _ _ _) _ _ _
    | typeDefinition =>
      exact agree_navigationAnswer h (·.typeDefinition)
        (fun _ _ => unaffected_navigationQuery h _ _ _ _ _) _ _ _
    | referencesFull =>
      exact agree_navigationAnswer h (·.references)
        (fun _ _ => unaffected_navigationQuery h _ _ _ _ _) _ _ _
    | documentHighlights =>
      exact agree_navigationAnswer h
        (fun service path absolute =>
          service.documentHighlights path absolute (LanguageService.filesToSearch arguments path))
        (fun _ _ => unaffected_navigationQuery h _ _ _ _ _) _ _ _
    | rename =>
      exact agree_navigationAnswer h (·.rename)
        (fun _ _ => unaffected_navigationQuery h _ _ _ _ _) _ _ _
    | text => exact ⟨rfl, rfl, h⟩
    | reset =>
      exact agree_applying h rfl
        (fun changed heq => Except.ok.inj heq ▸ LanguageService.isCurrent_of_eq_none rfl) _

/-- Two servers are the same, up to what they keep of compilations. -/
structure Server.Alike (server other : Server) : Prop where
  sequence : server.sequence = other.sequence
  service : server.service.forget = other.service.forget
  current : server.service.IsCurrent

theorem handle_alike (disk : Disk) {server other : Server} (h : server.Alike other)
    (request : Json) :
    (server.handle disk request = none ∧
      { other with service := other.service.forget }.handle disk request = none) ∨
    ∃ response behind behindOther, server.handle disk request = some (response, behind) ∧
      { other with service := other.service.forget }.handle disk request =
        some (response, behindOther) ∧ behind.Alike behindOther := by
  have hagree := agree_dispatch disk h.current (commandOf request)
    ((request.get "arguments").getD .null)
  rw [h.service] at hagree
  unfold Server.handle
  dsimp only
  rw [← hagree.same, ← h.sequence]
  cases (dispatch disk server.service (commandOf request)
    ((request.get "arguments").getD .null)).1 with
  | ok body => exact .inr ⟨_, _, _, rfl, rfl, rfl, hagree.service, hagree.current⟩
  | error failure =>
    cases failure with
    | error message => exact .inr ⟨_, _, _, rfl, rfl, rfl, hagree.service, hagree.current⟩
    | panic => exact .inl ⟨rfl, rfl⟩

/-- What is kept of the last compilation never shows. -/
theorem serve_alike (disks : Nat → Disk) {server other : Server} (h : server.Alike other)
    (requests : List Json) :
    let kept := server.serve disks requests
    let fresh := other.serveWith LanguageService.forget disks requests
    kept.responses = fresh.responses ∧ kept.ending = fresh.ending ∧
      kept.server.Alike fresh.server := by
  induction requests generalizing server other with
  | nil => exact ⟨rfl, rfl, h⟩
  | cons request requests ih =>
    have hdisk : disks other.sequence = disks server.sequence := by rw [h.sequence]
    dsimp only
    rw [Server.serve, Server.serveWith, Server.serveWith, hdisk]
    obtain ⟨hpanic, hother⟩ | ⟨response, behind, fresh, hhandle, hother, hbehind⟩ :=
      handle_alike (disks server.sequence) h request
    · simp only [id_eq, hpanic, hother, true_and]
      exact h
    · simp only [id_eq, hhandle, hother]
      split_ifs with hexit
      · exact ⟨rfl, rfl, hbehind⟩
      · obtain ⟨hresponses, hending, hserver⟩ := ih hbehind
        exact ⟨congrArg (response :: ·) hresponses, hending, hserver⟩

/-- The responses are those of a server that compiles anew for every request. -/
theorem serve_forgets (disks : Nat → Disk) (requests : List Json) :
    (Server.serve disks {} requests).responses =
        (Server.serveWith LanguageService.forget disks {} requests).responses ∧
      (Server.serve disks {} requests).ending =
        (Server.serveWith LanguageService.forget disks {} requests).ending ∧
      (Server.serve disks {} requests).server.service.IsCurrent := by
  have hstart : Server.Alike {} {} := ⟨rfl, rfl, LanguageService.isCurrent_of_eq_none rfl⟩
  obtain ⟨hresponses, hending, hserver⟩ := serve_alike disks hstart requests
  exact ⟨hresponses, hending, hserver.current⟩

/-! ## What a session leaves -/

def Command.isChange : Command → Bool
  | .compilerOptionsForInferredProjects | .openFile | .close | .change | .reset => true
  | _ => false

def isChange (request : Json) : Bool :=
  (commands.lookup (commandOf request)).any Command.isChange

def succeeded (response : Json) : Bool := ((response.get "success").bind asBool).getD false

/-- The requests that changed something: those for a change that succeeded. -/
def accepted (requests responses : List Json) : List Json :=
  ((requests.zip responses).filter fun (request, response) =>
    isChange request && succeeded response).map Prod.fst

omit [Compiler] [LossyUtf8] in
theorem forget_diagnosticsAnswer {service : LanguageService}
    (query : LanguageService → Name → DiagnosticResult × LanguageService)
    (hquery : ∀ path, (query service path).2.forget = service.forget)
    (command : String) (arguments : Json) :
    (service.diagnosticsAnswer command arguments query).2.forget = service.forget := by
  unfold LanguageService.diagnosticsAnswer
  split
  · rfl
  · exact hquery _

omit [Compiler] [JsonCodec] [LossyUtf8] in
theorem forget_navigationAnswer {α : Type} {service : LanguageService}
    (query : LanguageService → Name → Nat → ServiceQuery α × LanguageService)
    (hquery : ∀ path absolute, (query service path absolute).2.forget = service.forget)
    (name : Name) (arguments : Json) (body : LanguageService → Name → α → Answer Json) :
    (service.navigationAnswer name arguments query body).2.forget = service.forget := by
  unfold LanguageService.navigationAnswer
  split
  · rfl
  · exact hquery _ _

/-- A question leaves the texts and the options. -/
theorem forget_dispatch (disk : Disk) (service : LanguageService) {name : Name}
    (h : (commands.lookup name).any Command.isChange = false) (arguments : Json) :
    (dispatch disk service name arguments).2.forget = service.forget := by
  unfold dispatch
  cases hname : commands.lookup name with
  | none => rfl
  | some command =>
    rw [hname] at h
    cases command with
    | syntacticDiagnosticsSync => exact forget_diagnosticsAnswer _ (fun _ => rfl) _ _
    | semanticDiagnosticsSync => exact forget_diagnosticsAnswer _ (fun _ => rfl) _ _
    | quickinfo => exact forget_navigationAnswer _ (fun _ _ => rfl) _ _ _
    | definitionAndBoundSpan => exact forget_navigationAnswer _ (fun _ _ => rfl) _ _ _
    | definition => exact forget_navigationAnswer _ (fun _ _ => rfl) _ _ _
    | typeDefinition => exact forget_navigationAnswer _ (fun _ _ => rfl) _ _ _
    | referencesFull => exact forget_navigationAnswer _ (fun _ _ => rfl) _ _ _
    | documentHighlights => exact forget_navigationAnswer _ (fun _ _ => rfl) _ _ _
    | rename => exact forget_navigationAnswer _ (fun _ _ => rfl) _ _ _
    | configure => rfl
    | exit => rfl
    | text => rfl
    | _ => cases h

theorem exists_applying (disk : Disk) (service : LanguageService) {name : Name}
    (h : (commands.lookup name).any Command.isChange) (arguments : Json) :
    ∃ change body, dispatch disk service name arguments = service.applying change body := by
  unfold dispatch
  cases hname : commands.lookup name with
  | none => rw [hname] at h; cases h
  | some command =>
    rw [hname] at h
    cases command with
    | compilerOptionsForInferredProjects => exact ⟨_, _, rfl⟩
    | openFile => exact ⟨_, _, rfl⟩
    | close => exact ⟨_, _, rfl⟩
    | change => exact ⟨_, _, rfl⟩
    | reset => exact ⟨_, _, rfl⟩
    | _ => cases h

/-- A request that is not accepted leaves the texts and the options. -/
theorem forget_handle {disk : Disk} {server behind : Server} {request response : Json}
    (h : server.handle disk request = some (response, behind))
    (hquiet : (isChange request && succeeded response) = false) :
    behind.service.forget = server.service.forget := by
  cases hchange : isChange request with
  | false =>
    have hforget := forget_dispatch disk server.service hchange
      ((request.get "arguments").getD .null)
    unfold Server.handle at h
    dsimp only at h
    split at h
    · obtain ⟨rfl, rfl⟩ := Prod.mk.inj (Option.some.inj h)
      exact hforget
    · obtain ⟨rfl, rfl⟩ := Prod.mk.inj (Option.some.inj h)
      exact hforget
    · cases h
  | true =>
    obtain ⟨change, body, hdispatch⟩ := exists_applying disk server.service hchange
      ((request.get "arguments").getD .null)
    unfold Server.handle at h
    dsimp only at h
    rw [hdispatch] at h
    cases change with
    | ok changed =>
      obtain ⟨rfl, rfl⟩ := Prod.mk.inj (Option.some.inj h)
      rw [hchange] at hquiet
      cases hquiet
    | error failure =>
      cases failure with
      | error message =>
        obtain ⟨rfl, rfl⟩ := Prod.mk.inj (Option.some.inj h)
        rfl
      | panic => cases h

/-- Two servers hold the same texts and options, however many requests they have met. -/
structure Server.Level (server other : Server) : Prop where
  service : server.service.forget = other.service.forget
  current : server.service.IsCurrent
  currentOther : other.service.IsCurrent

theorem handle_level {disk : Disk} {server other : Server} (h : server.Level other)
    {request response : Json} {behind : Server}
    (hhandle : server.handle disk request = some (response, behind)) :
    behind.service.IsCurrent ∧ ∃ responseOther behindOther,
      other.handle disk request = some (responseOther, behindOther) ∧ behind.Level behindOther := by
  have hagree := agree_dispatch disk h.current (commandOf request)
    ((request.get "arguments").getD .null)
  have hother := agree_dispatch disk h.currentOther (commandOf request)
    ((request.get "arguments").getD .null)
  rw [h.service] at hagree
  have hlevel := hagree.service.trans hother.service.symm
  unfold Server.handle at hhandle ⊢
  dsimp only at hhandle ⊢
  rw [hother.same, ← hagree.same]
  cases hanswer : (dispatch disk server.service (commandOf request)
    ((request.get "arguments").getD .null)).1 with
  | ok body =>
    rw [hanswer] at hhandle
    obtain ⟨-, rfl⟩ := Prod.mk.inj (Option.some.inj hhandle)
    exact ⟨hagree.current, _, _, rfl, hlevel, hagree.current, hother.current⟩
  | error failure =>
    rw [hanswer] at hhandle
    cases failure with
    | error message =>
      obtain ⟨-, rfl⟩ := Prod.mk.inj (Option.some.inj hhandle)
      exact ⟨hagree.current, _, _, rfl, hlevel, hagree.current, hother.current⟩
    | panic => cases hhandle

theorem serve_level (disk : Disk) {server other : Server} (h : server.Level other)
    (requests : List Json) :
    let served := server.serve (fun _ => disk) requests
    let again := other.serve (fun _ => disk) (accepted requests served.responses)
    again.ending = .ended ∧ served.server.Level again.server := by
  induction requests generalizing server other with
  | nil => exact ⟨rfl, h⟩
  | cons request requests ih =>
    dsimp only
    rw [Server.serve, Server.serveWith]
    dsimp only [id_eq]
    cases hhandle : server.handle disk request with
    | none => exact ⟨rfl, h⟩
    | some answer =>
      obtain ⟨response, behind⟩ := answer
      obtain ⟨hcurrent, responseOther, behindOther, hother, hbehind⟩ := handle_level h hhandle
      dsimp only
      split_ifs with hexit
      · have hquiet : isChange request = false := by
          rw [isChange, hexit]
          rfl
        have haccepted : accepted (request :: requests) [response] = [] := by
          simp [accepted, hquiet]
        have hforget := forget_handle hhandle (by rw [hquiet]; rfl)
        rw [haccepted]
        exact ⟨rfl, hforget.trans h.service, hcurrent, h.currentOther⟩
      · cases hchanged : isChange request && succeeded response with
        | false =>
          have hforget := forget_handle hhandle hchanged
          have haccepted : ∀ responses, accepted (request :: requests) (response :: responses) =
              accepted requests responses := by
            intro responses
            simp only [accepted, List.zip_cons_cons]
            rw [List.filter_cons_of_neg (by simpa using hchanged)]
          rw [haccepted]
          exact ih ⟨hforget.trans h.service, hcurrent, h.currentOther⟩
        | true =>
          have haccepted : ∀ responses, accepted (request :: requests) (response :: responses) =
              request :: accepted requests responses := by
            intro responses
            simp only [accepted, List.zip_cons_cons]
            rw [List.filter_cons_of_pos (by simpa using hchanged), List.map_cons]
          rw [haccepted, Server.serveWith]
          dsimp only [id_eq]
          rw [hother]
          simp only [hexit, if_false]
          exact ih hbehind

/-- What a session leaves comes from the changes it accepted, in their order: everything else, and
every request that failed, might not have been sent. -/
theorem serve_accepted (disk : Disk) (requests : List Json) :
    let served := Server.serve (fun _ => disk) {} requests
    let again := Server.serve (fun _ => disk) {} (accepted requests served.responses)
    again.ending = .ended ∧ again.server.service.forget = served.server.service.forget := by
  have hstart : Server.Level {} {} := ⟨rfl, LanguageService.isCurrent_of_eq_none rfl,
    LanguageService.isCurrent_of_eq_none rfl⟩
  obtain ⟨hending, hserver⟩ := serve_level disk hstart requests
  exact ⟨hending, hserver.service.symm⟩

end

end Tsz.Service
