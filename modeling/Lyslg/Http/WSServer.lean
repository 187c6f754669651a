import Lyslg.Http.Servlet
import Lyslg.Http.WSSession
import Lyslg.Log.Define
import Lyslg.Support.Run
import Lyslg.Support.Trace
/-!
# `WSServer::handleClient`

The function as a machine that stops at each call whose result comes from outside: what the
peer sends, what the callbacks of the servlet return, and the level of the logger.  It prints
`*header` before it looks whether there is a header, so a handshake that fails is only
survived when the logger does not show `INFO`.
-/

namespace Lyslg.Http

open Support Support.Machine Log

/-! ## The handshake -/

/-- `boost::lexical_cast<int>`. -/
def lexicalCastInt : List UInt8 → Option Int
  | [] => none
  | c :: s =>
      if c = 45 then
        ((decimal s).filter fun n => n ≤ 2 ^ 31).map fun n => -(n : Int)
      else
        ((decimal (if c = 43 then s else c :: s)).filter fun n => n < 2 ^ 31).map Int.ofNat

namespace HttpRequest

/-- `getHeader(key)`. -/
def getHeader (r : HttpRequest) (key : List UInt8) : List UInt8 := (r.headers.find key).getD []

/-- `getHeaderAs<int>(key)`. -/
def getHeaderAsInt (r : HttpRequest) (key : List UInt8) : Int :=
  ((r.headers.find key).bind lexicalCastInt).getD 0

end HttpRequest

/-- `WSSession::handleShake`, on what `recvRequest` returned.  Nothing depends on the response
it sends. -/
def handleShake (received : Option HttpRequest) : Option HttpRequest :=
  match received with
  | none => none
  | some req =>
      if !strcasecmpZero (req.getHeader (chars "Upgrade")) (chars "websocket") then none
      else if !strcasecmpZero (req.getHeader (chars "Connection")) (chars "Upgrade") then none
      else if req.getHeaderAsInt (chars "Sec-webSocket-Version") ≠ 13 then none
      else if (req.getHeader (chars "Sec-WebSocket-Key")).isEmpty then none
      else some req

namespace WSServer

variable {ω : Type}

/-! ## The machine -/

/-- The call `handleClient` is about to make. -/
inductive At (ω : Type) where
  | handleShake
  /-- `LYSLG_LOG_INFO(g_logger) << " HttpRequest=" << "/n" << *header` -/
  | logHeader (header : Option HttpRequest)
  | getWSServlet (header : HttpRequest)
  | onConnect (header : HttpRequest) (servlet : ω)
  | recvMessage (header : HttpRequest) (servlet : ω)
  | handle (header : HttpRequest) (servlet : ω) (msg : WSFrameMessage)
  | onClose (header : HttpRequest) (servlet : ω)
  | close
  /-- it has returned, or an exception has left it -/
  | ended
  | nullDereference

/-- What comes back from a call. -/
inductive Answer (ω : Type) where
  /-- `recvRequest` in `handleShake` returned this -/
  | request (received : Option HttpRequest)
  /-- `recvRequest` was left by an exception, and so is `handleClient` -/
  | lengthError
  | level (level : LogLevel)
  /-- what `m_dispatch` holds -/
  | dispatch (dispatch : ServletDispatch (Servlet ω))
  | message (msg : Option WSFrameMessage)
  /-- the `int32_t` of a callback -/
  | result (rt : Int)
  | closed

/-- A call that was made, with its result. -/
inductive Call (ω : Type) where
  | handleShake (header : Option HttpRequest)
  | getWSServlet (uri : List UInt8) (servlet : Option ω)
  | onConnect (header : HttpRequest) (servlet : ω) (rt : Int)
  | recvMessage (msg : Option WSFrameMessage)
  | handle (header : HttpRequest) (servlet : ω) (msg : WSFrameMessage) (rt : Int)
  | onClose (header : HttpRequest) (servlet : ω)
  /-- `session->close()`, or the same from the destructor of the session -/
  | close

structure State (ω : Type) where
  loc : At ω := .handleShake
  calls : List (Call ω) := []

/-- Note the call that was made and go on. -/
def State.made (s : State ω) (call : Call ω) (loc : At ω) : State ω :=
  { loc := loc, calls := s.calls ++ [call] }

/-- `WSServer::handleClient`, from one call to the next. -/
def step (fnmatch : List UInt8 → List UInt8 → Bool) (s : State ω) (a : Answer ω) :
    Option (State ω) :=
  match s.loc, a with
  | .handleShake, .request received =>
      some (s.made (.handleShake (Http.handleShake received))
        (.logHeader (Http.handleShake received)))
  | .handleShake, .lengthError => some (s.made .close .ended)
  | .logHeader none, .level level =>
      -- the text is only put together when it is shown
      some { s with loc := if level.shows .info then .nullDereference else .close }
  | .logHeader (some header), .level _ => some { s with loc := .getWSServlet header }
  | .getWSServlet header, .dispatch dispatch =>
      let servlet := dispatch.getWSServlet fnmatch header.path
      some (s.made (.getWSServlet header.path servlet)
        (match servlet with
          | none => .close
          | some servlet => .onConnect header servlet))
  | .onConnect header servlet, .result rt =>
      some (s.made (.onConnect header servlet rt)
        (if rt ≠ 0 then .close else .recvMessage header servlet))
  | .recvMessage header servlet, .message msg =>
      some (s.made (.recvMessage msg)
        (match msg with
          | none => .onClose header servlet
          | some msg => .handle header servlet msg))
  | .handle header servlet msg, .result rt =>
      some (s.made (.handle header servlet msg rt)
        (if rt ≠ 0 then .onClose header servlet else .recvMessage header servlet))
  | .onClose header servlet, .result _ => some (s.made (.onClose header servlet) .close)
  | .close, .closed => some (s.made .close .ended)
  | _, _ => none

/-! ## The life of a session -/

/-- What the calls before a call have to be. -/
def Allowed (before : List (Call ω)) : Call ω → Prop
  | .handleShake _ => before = []
  | .getWSServlet uri _ => ∃ header, header.path = uri ∧ before = [.handleShake (some header)]
  | .onConnect header servlet _ =>
      .handleShake (some header) ∈ before ∧ .getWSServlet header.path (some servlet) ∈ before ∧
        ∀ header servlet rt, .onConnect header servlet rt ∉ before
  | .recvMessage _ =>
      (∃ header servlet, .onConnect header servlet 0 ∈ before) ∧
        ∀ msg, before.getLast? ≠ some (.recvMessage msg)
  | .handle header servlet msg _ =>
      .onConnect header servlet 0 ∈ before ∧ before.getLast? = some (.recvMessage (some msg)) ∧
        ∀ header servlet msg rt, .handle header servlet msg rt ∈ before → rt = 0
  | .onClose header servlet =>
      .onConnect header servlet 0 ∈ before ∧ (∀ header servlet, .onClose header servlet ∉ before) ∧
        ∀ msg, before.getLast? ≠ some (.recvMessage (some msg))
  | .close =>
      (∀ header servlet, .onConnect header servlet 0 ∈ before → .onClose header servlet ∈ before) ∧
        .close ∉ before ∧ ∀ msg, before.getLast? ≠ some (.recvMessage (some msg))

/-- The calls that were made are in order, and when it is over the last one closed the
session. -/
structure Lifecycle (s : State ω) : Prop where
  no_null : s.loc ≠ .nullDereference
  allowed : Trace.Each Allowed s.calls
  closed : s.loc = .ended → s.calls.getLast? = some .close

/-- The handshake has succeeded, or the logger does not show that it has not. -/
def Survives (s : State ω) (a : Answer ω) : Prop :=
  s.loc = .logHeader none → ∀ level, a = .level level → level.shows .info = false

/-! ## What each place knows of the calls -/

/-- The one connection that was accepted is open. -/
structure Serving (header : HttpRequest) (servlet : ω) (calls : List (Call ω)) : Prop where
  connected : .onConnect header servlet 0 ∈ calls
  unique : ∀ h w rt, Call.onConnect h w rt ∈ calls → h = header ∧ w = servlet
  not_onClose : ∀ h w, .onClose h w ∉ calls
  not_close : .close ∉ calls

/-- Every message so far was handled with the result 0. -/
def AllHandled (calls : List (Call ω)) : Prop :=
  ∀ header servlet msg rt, Call.handle header servlet msg rt ∈ calls → rt = 0

/-- No message waits to be handled. -/
def NonePending (calls : List (Call ω)) : Prop :=
  ∀ msg, calls.getLast? ≠ some (Call.recvMessage (some msg))

/-- What is known of the calls when the machine is at a place. -/
def Knows (calls : List (Call ω)) : At ω → Prop
  | .handleShake => calls = []
  | .logHeader header => calls = [.handleShake header]
  | .getWSServlet header => calls = [.handleShake (some header)]
  | .onConnect header servlet =>
      calls = [.handleShake (some header), .getWSServlet header.path (some servlet)]
  | .recvMessage header servlet =>
      Serving header servlet calls ∧ AllHandled calls ∧
        ∀ msg, calls.getLast? ≠ some (.recvMessage msg)
  | .handle header servlet msg =>
      Serving header servlet calls ∧ AllHandled calls ∧
        calls.getLast? = some (.recvMessage (some msg))
  | .onClose header servlet => Serving header servlet calls ∧ NonePending calls
  | .close =>
      (∀ header servlet, .onConnect header servlet 0 ∈ calls → .onClose header servlet ∈ calls) ∧
        .close ∉ calls ∧ NonePending calls
  | .ended => calls.getLast? = some .close
  | .nullDereference => True

/-- What holds in every state of a run. -/
structure InOrder (s : State ω) : Prop where
  allowed : Trace.Each Allowed s.calls
  knows : Knows s.calls s.loc

theorem inOrder_start : InOrder ({} : State ω) := ⟨Trace.each_nil _, rfl⟩

theorem InOrder.made {s : State ω} {call : Call ω} {loc : At ω} (h : InOrder s)
    (hcall : Allowed s.calls call) (hloc : Knows (s.calls ++ [call]) loc) :
    InOrder (s.made call loc) :=
  ⟨Trace.each_append_singleton.mpr ⟨h.allowed, hcall⟩, hloc⟩

/-- A call that neither connects nor closes leaves the connection open. -/
theorem Serving.append {header : HttpRequest} {servlet : ω} {calls : List (Call ω)} {call : Call ω}
    (h : Serving header servlet calls) (hconnect : ∀ h w rt, call ≠ .onConnect h w rt)
    (honClose : ∀ h w, call ≠ .onClose h w) (hclose : call ≠ .close) :
    Serving header servlet (calls ++ [call]) where
  connected := List.mem_append_left _ h.connected
  unique := by
    intro h' w rt hmem
    rcases List.mem_append.mp hmem with hmem | hmem
    · exact h.unique h' w rt hmem
    · exact absurd (List.mem_singleton.mp hmem).symm (hconnect h' w rt)
  not_onClose := by
    intro h' w hmem
    rcases List.mem_append.mp hmem with hmem | hmem
    · exact h.not_onClose h' w hmem
    · exact honClose h' w (List.mem_singleton.mp hmem).symm
  not_close := by
    intro hmem
    rcases List.mem_append.mp hmem with hmem | hmem
    · exact h.not_close hmem
    · exact hclose (List.mem_singleton.mp hmem).symm

theorem AllHandled.append {calls : List (Call ω)} {call : Call ω} (h : AllHandled calls)
    (hcall : ∀ header servlet msg rt, call = .handle header servlet msg rt → rt = 0) :
    AllHandled (calls ++ [call]) := by
  intro header servlet msg rt hmem
  rcases List.mem_append.mp hmem with hmem | hmem
  · exact h header servlet msg rt hmem
  · exact hcall header servlet msg rt (List.mem_singleton.mp hmem).symm

theorem nonePending_append {call : Call ω} (hcall : ∀ msg, call ≠ .recvMessage (some msg))
    (calls : List (Call ω)) : NonePending (calls ++ [call]) := by
  intro msg hlast
  rw [List.getLast?_concat] at hlast
  exact hcall msg (Option.some.inj hlast)

/-! ## Each call keeps the order -/

variable {fnmatch : List UInt8 → List UInt8 → Bool} {s t : State ω}
  {header : HttpRequest} {servlet : ω}

theorem inOrder_getWSServlet (h : InOrder s) (hloc : s.loc = .getWSServlet header)
    (found : Option ω) :
    InOrder (s.made (.getWSServlet header.path found)
      (match found with
        | none => .close
        | some servlet => .onConnect header servlet)) := by
  have hcalls : s.calls = [.handleShake (some header)] := by
    have hknows := h.knows
    rw [hloc] at hknows
    exact hknows
  refine h.made ⟨header, rfl, hcalls⟩ ?_
  rw [hcalls]
  cases found with
  | none =>
      refine ⟨?_, by simp, nonePending_append (by simp) _⟩
      intro header' servlet' hmem
      simp at hmem
  | some servlet => rfl

theorem inOrder_onConnect (h : InOrder s) (hloc : s.loc = .onConnect header servlet) (rt : Int) :
    InOrder (s.made (.onConnect header servlet rt)
      (if rt ≠ 0 then .close else .recvMessage header servlet)) := by
  have hcalls : s.calls =
      [.handleShake (some header), .getWSServlet header.path (some servlet)] := by
    have hknows := h.knows
    rw [hloc] at hknows
    exact hknows
  refine h.made ⟨by simp [hcalls], by simp [hcalls], by simp [hcalls]⟩ ?_
  by_cases hrt : rt = 0
  · subst hrt
    rw [if_neg (by simp)]
    refine ⟨⟨by simp, ?_, by simp [hcalls], by simp [hcalls]⟩, ?_, by simp⟩
    · intro header' servlet' rt' hmem
      have hsame : header' = header ∧ servlet' = servlet ∧ rt' = 0 := by simpa [hcalls] using hmem
      exact ⟨hsame.1, hsame.2.1⟩
    · intro header' servlet' msg rt' hmem
      simp [hcalls] at hmem
  · rw [if_pos hrt]
    refine ⟨?_, by simp [hcalls], nonePending_append (by simp) _⟩
    intro header' servlet' hmem
    have hsame : header' = header ∧ servlet' = servlet ∧ 0 = rt := by simpa [hcalls] using hmem
    exact absurd hsame.2.2.symm hrt

theorem inOrder_recvMessage (h : InOrder s) (hloc : s.loc = .recvMessage header servlet)
    (msg : Option WSFrameMessage) :
    InOrder (s.made (.recvMessage msg)
      (match msg with
        | none => .onClose header servlet
        | some msg => .handle header servlet msg)) := by
  have hknows := h.knows
  rw [hloc] at hknows
  obtain ⟨hserving, hhandled, hlast⟩ := hknows
  have hserving' : Serving header servlet (s.calls ++ [.recvMessage msg]) :=
    hserving.append (by simp) (by simp) (by simp)
  refine h.made ⟨⟨header, servlet, hserving.connected⟩, hlast⟩ ?_
  cases msg with
  | none => exact ⟨hserving', nonePending_append (by simp) _⟩
  | some msg => exact ⟨hserving', hhandled.append (by simp), List.getLast?_concat⟩

theorem inOrder_handle {msg : WSFrameMessage} (h : InOrder s)
    (hloc : s.loc = .handle header servlet msg) (rt : Int) :
    InOrder (s.made (.handle header servlet msg rt)
      (if rt ≠ 0 then .onClose header servlet else .recvMessage header servlet)) := by
  have hknows := h.knows
  rw [hloc] at hknows
  obtain ⟨hserving, hhandled, hlast⟩ := hknows
  have hserving' : Serving header servlet (s.calls ++ [.handle header servlet msg rt]) :=
    hserving.append (by simp) (by simp) (by simp)
  refine h.made ⟨hserving.connected, hlast, hhandled⟩ ?_
  by_cases hrt : rt = 0
  · rw [if_neg (by simpa using hrt)]
    refine ⟨hserving', hhandled.append ?_, by simp⟩
    intro header' servlet' msg' rt' heq
    cases heq
    exact hrt
  · rw [if_pos hrt]
    exact ⟨hserving', nonePending_append (by simp) _⟩

theorem inOrder_onClose (h : InOrder s) (hloc : s.loc = .onClose header servlet) :
    InOrder (s.made (.onClose header servlet) .close) := by
  have hknows := h.knows
  rw [hloc] at hknows
  obtain ⟨hserving, hpending⟩ := hknows
  refine h.made ⟨hserving.connected, hserving.not_onClose, hpending⟩ ⟨?_, ?_, ?_⟩
  · intro header' servlet' hmem
    have hold : Call.onConnect header' servlet' 0 ∈ s.calls := by simpa using hmem
    obtain ⟨rfl, rfl⟩ := hserving.unique _ _ _ hold
    simp
  · simpa using hserving.not_close
  · exact nonePending_append (by simp) _

theorem inOrder_close (h : InOrder s) (hloc : s.loc = .close) :
    InOrder (s.made .close .ended) := by
  have hknows := h.knows
  rw [hloc] at hknows
  exact h.made hknows List.getLast?_concat

/-- One step keeps the order, and it dereferences a null pointer unless it survives. -/
theorem step_inOrder {a : Answer ω} (h : InOrder s) (hstep : step fnmatch s a = some t) :
    InOrder t ∧ (t.loc ≠ .nullDereference ↔ Survives s a) := by
  obtain ⟨loc, calls⟩ := s
  have hother : loc ≠ .logHeader none → Survives ⟨loc, calls⟩ a := fun hne heq => absurd heq hne
  cases loc with
  | handleShake =>
      have hcalls : calls = [] := h.knows
      subst hcalls
      cases a with
      | request received =>
          obtain rfl := Option.some.inj hstep
          refine ⟨h.made rfl rfl, iff_of_true ?_ (hother ?_)⟩ <;> simp [State.made]
      | lengthError =>
          obtain rfl := Option.some.inj hstep
          refine ⟨h.made ⟨by simp, by simp, by simp⟩ rfl, iff_of_true ?_ (hother ?_)⟩ <;>
            simp [State.made]
      | _ => cases hstep
  | logHeader shaken =>
      cases a with
      | level level =>
          have hcalls : calls = [.handleShake shaken] := h.knows
          cases shaken with
          | none =>
              obtain rfl := Option.some.inj hstep
              by_cases hshows : level.shows .info = true
              · refine ⟨⟨h.allowed, ?_⟩, ?_⟩
                · rw [if_pos hshows]
                  trivial
                · rw [if_pos hshows]
                  refine iff_of_false (by simp) ?_
                  intro hsurvives
                  exact Bool.noConfusion ((hsurvives rfl level rfl).symm.trans hshows)
              · refine ⟨⟨h.allowed, ?_⟩, ?_⟩
                · rw [if_neg hshows]
                  change calls = _ at hcalls
                  subst hcalls
                  exact ⟨by simp, by simp, nonePending_append (by simp) []⟩
                · rw [if_neg hshows]
                  refine iff_of_true (by simp) ?_
                  intro _ level' heq
                  cases heq
                  simpa using hshows
          | some header =>
              obtain rfl := Option.some.inj hstep
              exact ⟨⟨h.allowed, hcalls⟩, iff_of_true (by simp) (hother (by simp))⟩
      | _ => cases shaken <;> cases hstep
  | getWSServlet header =>
      cases a with
      | dispatch dispatch =>
          obtain rfl := Option.some.inj hstep
          refine ⟨inOrder_getWSServlet h rfl _, iff_of_true ?_ (hother (by simp))⟩
          unfold State.made
          split <;> simp
      | _ => cases hstep
  | onConnect header servlet =>
      cases a with
      | result rt =>
          obtain rfl := Option.some.inj hstep
          refine ⟨inOrder_onConnect h rfl rt, iff_of_true ?_ (hother (by simp))⟩
          unfold State.made
          split <;> simp
      | _ => cases hstep
  | recvMessage header servlet =>
      cases a with
      | message msg =>
          obtain rfl := Option.some.inj hstep
          refine ⟨inOrder_recvMessage h rfl msg, iff_of_true ?_ (hother (by simp))⟩
          cases msg <;> simp [State.made]
      | _ => cases hstep
  | handle header servlet msg =>
      cases a with
      | result rt =>
          obtain rfl := Option.some.inj hstep
          refine ⟨inOrder_handle h rfl rt, iff_of_true ?_ (hother (by simp))⟩
          unfold State.made
          split <;> simp
      | _ => cases hstep
  | onClose header servlet =>
      cases a with
      | result rt =>
          obtain rfl := Option.some.inj hstep
          exact ⟨inOrder_onClose h rfl, iff_of_true (by simp [State.made]) (hother (by simp))⟩
      | _ => cases hstep
  | close =>
      cases a with
      | closed =>
          obtain rfl := Option.some.inj hstep
          exact ⟨inOrder_close h rfl, iff_of_true (by simp [State.made]) (hother (by simp))⟩
      | _ => cases hstep
  | ended => cases a <;> cases hstep
  | nullDereference => cases a <;> cases hstep

/-! ## Whole sessions -/

theorem InOrder.lifecycle_iff (h : InOrder s) : Lifecycle s ↔ s.loc ≠ .nullDereference := by
  refine ⟨Lifecycle.no_null, fun hnull => ⟨hnull, h.allowed, ?_⟩⟩
  intro hended
  have hknows := h.knows
  rw [hended] at hknows
  exact hknows

/-- The calls are in order in every state of a session exactly when the handshake succeeds or
the logger is above `INFO` when it has not. -/
theorem handleClient_lifecycle {answers : List (Answer ω)} :
    Run (Run.Ensuring (fun s a t => step fnmatch s a = some t) Lifecycle) {} answers s ↔
      Run (Run.Guarded (fun s a t => step fnmatch s a = some t) Survives) {} answers s := by
  refine Run.ensuring_iff_guarded (I := InOrder) ?_ inOrder_start
    (inOrder_start.lifecycle_iff.mpr (by simp))
  intro s a t hs _ hstep
  obtain ⟨ht, hiff⟩ := step_inOrder hs hstep
  exact ⟨ht, ht.lifecycle_iff.trans hiff⟩

/-- The peer closes before it has sent a request, and the logger is at its default. -/
theorem handleClient_dereferences_null :
    ∃ (answers : List (Answer Nat)) (s : State Nat),
      Run (fun s a t => step (fun _ _ => false) s a = some t) {} answers s ∧ ¬ Lifecycle s := by
  refine ⟨[.request none, .level .debug], ⟨.nullDereference, [.handleShake none]⟩, ?_, ?_⟩
  · exact .cons rfl (.cons rfl (.nil _))
  · intro h
    exact h.no_null rfl

end WSServer

end Lyslg.Http
