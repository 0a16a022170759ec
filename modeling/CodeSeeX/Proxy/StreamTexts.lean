import CodeSeeX.General.Channels
import CodeSeeX.Proxy.ResponseStream

/-!
# The texts of a streamed turn

Text and reasoning arrive in deltas, with deltas of calls between them. A turn keeps all of it as
long as neither channel is closed by what comes between two pieces of it.
-/
namespace CodeSeeX.ResponseStream
open Tools StreamToolCalls Channels Bool List

variable (channel : TextChannel) (events later : List StreamEvent)

section
variable (context : StreamContext) (payload : Value)

/-! ## What arrives -/

/-- The texts of a channel, empty ones left out. -/
def channelTexts (channel : TextChannel) (chunks : List Value) : List Text :=
  chunks.filterMap fun chunk => deltaText (chunkDelta chunk) channel

/-- The text that a channel shows: all of it, or what the adapter makes visible. -/
def visibleFrom (buffer : Text) (texts : List Text) : Text :=
  if context.adaptDeepseekToolProtocol then
    (ToolProtocol.adapt context.texts.fromStr (toolsAvailable payload) buffer texts).visibleText
  else texts.flatten

def visibleText (channel : TextChannel) (chunks : List Value) : Text :=
  visibleFrom context payload [] (channelTexts channel chunks)

/-- What a text shows at once, and the buffer of the adapter behind it. -/
def showText (buffer : Text) : Option Text → List Text × Text
  | none => ([], buffer)
  | some text =>
      if context.adaptDeepseekToolProtocol then
        let pushed := ToolProtocol.push context.texts.fromStr (toolsAvailable payload) buffer text
        ([pushed.1.visibleText], pushed.2)
      else ([text], buffer)

/-- The texts and calls of a completion in the order in which they arrive; the buffers are those of
the adapters for reasoning and content. -/
def streamPieces (reasoningBuffer contentBuffer : Text) : List Value → List (Piece Char)
  | [] =>
      if context.adaptDeepseekToolProtocol then
        [.side (ToolProtocol.finish context.texts.fromStr (toolsAvailable payload)
            reasoningBuffer).visibleText,
          .main (ToolProtocol.finish context.texts.fromStr (toolsAvailable payload)
            contentBuffer).visibleText]
      else []
  | chunk :: chunks =>
      let delta := chunkDelta chunk
      let reasoning := showText context payload reasoningBuffer (deltaText delta .reasoning)
      let content := showText context payload contentBuffer (deltaText delta .content)
      reasoning.1.map .side ++ content.1.map .main ++
        (if bringsCalls payload delta then [.cut] else []) ++
        streamPieces reasoning.2 content.2 chunks

theorem mainOf_side (texts : List Text) : mainOf (texts.map Piece.side : List (Piece Char)) = [] := by
  simp [mainOf, Function.comp_def, Piece.mainPart]

theorem sideOf_main (texts : List Text) : sideOf (texts.map Piece.main : List (Piece Char)) = [] := by
  simp [sideOf, Function.comp_def, Piece.sidePart]

theorem mainOf_main (texts : List Text) :
    mainOf (texts.map Piece.main : List (Piece Char)) = texts.flatten := by
  simp [mainOf, Function.comp_def, Piece.mainPart]

theorem sideOf_side (texts : List Text) :
    sideOf (texts.map Piece.side : List (Piece Char)) = texts.flatten := by
  simp [sideOf, Function.comp_def, Piece.sidePart]

theorem parts_cut (brings : Bool) :
    mainOf (if brings then [Piece.cut] else [] : List (Piece Char)) = [] ∧
      sideOf (if brings then [Piece.cut] else [] : List (Piece Char)) = [] := by
  cases brings <;> exact ⟨rfl, rfl⟩

/-- What a text shows at once, in front of what the later texts show. -/
theorem showText_visible (buffer : Text) (text : Option Text) (texts : List Text) :
    (showText context payload buffer text).1.flatten ++
        visibleFrom context payload (showText context payload buffer text).2 texts =
      visibleFrom context payload buffer (text.toList ++ texts) := by
  cases text with
  | none => rfl
  | some text =>
    rw [showText]
    by_cases hadapt : context.adaptDeepseekToolProtocol = true
    · simp [visibleFrom, hadapt, ToolProtocol.adapt]
    · simp [visibleFrom, hadapt]

theorem channelTexts_cons (chunk : Value) (chunks : List Value) :
    channelTexts channel (chunk :: chunks) =
      (deltaText (chunkDelta chunk) channel).toList ++ channelTexts channel chunks := by
  rw [channelTexts, filterMap_cons]
  cases deltaText (chunkDelta chunk) channel <;> rfl

/-- The pieces of a channel show what the channel shows. -/
theorem streamPieces_parts (reasoningBuffer contentBuffer : Text) (chunks : List Value) :
    mainOf (streamPieces context payload reasoningBuffer contentBuffer chunks) =
        visibleFrom context payload contentBuffer (channelTexts .content chunks) ∧
      sideOf (streamPieces context payload reasoningBuffer contentBuffer chunks) =
        visibleFrom context payload reasoningBuffer (channelTexts .reasoning chunks) := by
  induction chunks generalizing reasoningBuffer contentBuffer with
  | nil =>
    by_cases hadapt : context.adaptDeepseekToolProtocol = true
    · simp [streamPieces, visibleFrom, hadapt, channelTexts, ToolProtocol.adapt, mainOf, sideOf,
        Piece.mainPart, Piece.sidePart]
    · simp [streamPieces, visibleFrom, hadapt, channelTexts, mainOf, sideOf]
  | cons chunk chunks ih =>
    simp only [streamPieces, mainOf_append, sideOf_append, mainOf_side, sideOf_side, mainOf_main,
      sideOf_main, parts_cut, nil_append, append_nil]
    rw [(ih _ _).1, (ih _ _).2, channelTexts_cons, channelTexts_cons, showText_visible,
      showText_visible]
    exact ⟨rfl, rfl⟩

end

/-! ## What is kept -/

/-- The texts of a turn and which of them are closed. -/
def TurnVars.texts (turn : TurnVars) : State Char where
  main := turn.turnText
  side := turn.turnReasoning
  opened := turn.turnOutputOpen
  closed := turn.turnOutputClosed
  sideClosed := turn.reasoningClosed

/-- What the texts of a turn do not touch. -/
def TurnVars.source (turn : TurnVars) : Value × Text × Text :=
  (turn.payload, turn.reasoningBuffer, turn.contentBuffer)

section
variable (context : StreamContext)

theorem texts_closeReasoning (turn : TurnVars) :
    (closeReasoningIfNeeded context turn).texts = turn.texts.closeSide ∧
      (closeReasoningIfNeeded context turn).source = turn.source := by
  rw [closeReasoningIfNeeded]
  by_cases hclosed : turn.reasoningClosed = true
  · simp [hclosed, TurnVars.texts, State.closeSide]
  · by_cases hempty : turn.turnReasoning.isEmpty = true
    · simp [hempty, hclosed, TurnVars.texts, State.closeSide]
    · simp [hempty, hclosed, TurnVars.texts, State.closeSide, TurnVars.pushWhole, TurnVars.source]

theorem texts_closeContent (phase : Text) (turn : TurnVars) :
    (closeContentIfNeeded phase turn).texts =
        { turn.texts with closed := turn.turnOutputClosed || turn.turnOutputOpen } ∧
      (closeContentIfNeeded phase turn).source = turn.source := by
  rw [closeContentIfNeeded]
  by_cases hclosed : turn.turnOutputClosed = true
  · simp [hclosed, TurnVars.texts]
  · by_cases hopen : turn.turnOutputOpen = true
    · simp [hclosed, hopen, TurnVars.texts, TurnVars.source]
    · simp [hclosed, hopen, TurnVars.texts]

theorem texts_openContent (turn : TurnVars) :
    (openContent turn).texts = { turn.texts with opened := true } ∧
      (openContent turn).source = turn.source := by
  rw [openContent]
  by_cases hopen : turn.turnOutputOpen = true
  · simp [hopen, TurnVars.texts]
  · simp [hopen, TurnVars.texts, TurnVars.source]

/-- The piece of a channel. -/
def channelPiece : TextChannel → Text → Piece Char
  | .content => .main
  | .reasoning => .side

theorem texts_emitVisible (channel : TextChannel) (text : Text) (turn : TurnVars) :
    (emitVisible context channel text turn).texts = turn.texts.step (channelPiece channel text) ∧
      (emitVisible context channel text turn).source = turn.source := by
  cases channel with
  | content =>
    rw [emitVisible, emitContentDelta, channelPiece, State.step]
    by_cases hempty : text.isEmpty = true
    · simp [hempty]
    · by_cases hclosed : turn.turnOutputClosed = true
      · have hview : turn.texts.closed = true := hclosed
        simp [hclosed, hview]
      · have hview : turn.texts.closed = false := by simpa [TurnVars.texts] using hclosed
        obtain ⟨hreasoning, hsource⟩ := texts_closeReasoning context turn
        obtain ⟨hopened, hsource'⟩ := texts_openContent (closeReasoningIfNeeded context turn)
        rw [hreasoning] at hopened
        rw [hsource] at hsource'
        have happend : (appendContent text (openContent (closeReasoningIfNeeded context turn))).texts =
            { (openContent (closeReasoningIfNeeded context turn)).texts with
              main := (openContent (closeReasoningIfNeeded context turn)).texts.main ++ text } := rfl
        simp only [hempty, hclosed, hview, Bool.not_false, Bool.and_self, if_true, Bool.or_self,
          false_eq_true, if_false, happend, hopened]
        exact ⟨rfl, hsource'⟩
  | reasoning =>
    rw [emitVisible, emitReasoningDelta, channelPiece, State.step]
    by_cases hempty : text.isEmpty = true
    · simp [hempty]
    · by_cases hclosed : turn.reasoningClosed = true
      · have hview : turn.texts.sideClosed = true := hclosed
        simp [hclosed, hview]
      · have hview : turn.texts.sideClosed = false := by simpa [TurnVars.texts] using hclosed
        simp only [hempty, hclosed, hview, Bool.not_false, Bool.and_self, if_true, Bool.or_self,
          false_eq_true, if_false]
        exact ⟨rfl, rfl⟩

theorem texts_announceCalls (delta : Value) (turn : TurnVars) :
    (announceCalls context delta turn).texts = turn.texts ∧
      (announceCalls context delta turn).source = turn.source := by
  rw [announceCalls]
  induction deltaToolCalls delta generalizing turn with
  | nil => exact ⟨rfl, rfl⟩
  | cons call calls ih =>
    have hstep : (announceCall context turn call).texts = turn.texts ∧
        (announceCall context turn call).source = turn.source := by
      rw [announceCall]
      split
      split <;> exact ⟨rfl, rfl⟩
    rw [foldl_cons, (ih _).1, (ih _).2]
    exact hstep

/-- Calls close both channels. -/
theorem texts_receiveToolCalls (delta : Value) (turn : TurnVars) :
    (receiveToolCalls context delta turn).texts =
        turn.texts.run (if bringsCalls turn.payload delta then [.cut] else []) ∧
      (receiveToolCalls context delta turn).source = turn.source := by
  rw [receiveToolCalls]
  by_cases hbrings : bringsCalls turn.payload delta = true
  · rw [if_pos hbrings, if_pos hbrings]
    obtain ⟨hreasoning, hsource⟩ := texts_closeReasoning context turn
    obtain ⟨hcontent, hsource'⟩ := texts_closeContent "commentary"
      (closeReasoningIfNeeded context turn)
    obtain ⟨hannounce, hsource''⟩ := texts_announceCalls context delta
      (closeContentIfNeeded "commentary" (closeReasoningIfNeeded context turn))
    rw [hsource', hsource] at hsource''
    refine ⟨?_, hsource''⟩
    have hopened : (closeReasoningIfNeeded context turn).turnOutputOpen = turn.turnOutputOpen :=
      congrArg State.opened hreasoning
    have hclosed : (closeReasoningIfNeeded context turn).turnOutputClosed = turn.turnOutputClosed :=
      congrArg State.closed hreasoning
    rw [hopened, hclosed, hreasoning] at hcontent
    exact hannounce.trans hcontent
  · rw [if_neg hbrings, if_neg hbrings]
    exact ⟨rfl, rfl⟩

theorem texts_handleContent (channel : TextChannel) (toolContent : ToolProtocol.DeepSeekToolContent)
    (turn : TurnVars) :
    (handleProviderToolContent context channel toolContent turn).texts =
        turn.texts.step (channelPiece channel toolContent.visibleText) ∧
      (handleProviderToolContent context channel toolContent turn).source = turn.source := by
  exact texts_emitVisible context channel toolContent.visibleText turn

/-! ### The buffers of the adapters -/

/-- The turn has the payload and the buffers of a stretch of the stream; the adapter for reasoning
is of no use once reasoning is closed. -/
structure Follows (turn : TurnVars) (payload : Value) (reasoningBuffer contentBuffer : Text) :
    Prop where
  payload : turn.payload = payload
  content : turn.contentBuffer = contentBuffer
  reasoning : turn.reasoningClosed = false → turn.reasoningBuffer = reasoningBuffer

variable {context} {turn : TurnVars} {payload : Value} {reasoningBuffer contentBuffer : Text}

theorem follows_of_source {later : TurnVars} (h : Follows turn payload reasoningBuffer contentBuffer)
    (hsource : later.source = turn.source) (hclosed : turn.texts.sideClosed = true →
      later.texts.sideClosed = true) : Follows later payload reasoningBuffer contentBuffer := by
  simp only [TurnVars.source, Prod.mk.injEq] at hsource
  refine ⟨hsource.1.trans h.payload, hsource.2.2.trans h.content, fun hopen => ?_⟩
  refine hsource.2.1.trans (h.reasoning ?_)
  by_contra hnot
  rw [not_eq_false] at hnot
  have hstill : later.reasoningClosed = true := hclosed hnot
  rw [hopen] at hstill
  exact false_ne_true hstill

/-- A text of a channel whose adapter has the buffer; `reasoning` and `content` are the buffers
that go with what the adapter keeps. -/
theorem follows_receiveText (channel : TextChannel) {buffer : Text} (reasoning content : Text → Text)
    (h : Follows turn payload (reasoning buffer) (content buffer))
    (hbuffer : turn.buffer channel = buffer)
    (hkept : ∀ kept, Follows (turn.setBuffer channel kept) payload (reasoning kept) (content kept))
    (text : Text) :
    (receiveText context channel text turn).texts = turn.texts.run
        ((showText context payload buffer (some text)).1.map (channelPiece channel)) ∧
      Follows (receiveText context channel text turn) payload
        (reasoning (showText context payload buffer (some text)).2)
        (content (showText context payload buffer (some text)).2) := by
  rw [receiveText, showText, h.payload]
  by_cases hadapt : context.adaptDeepseekToolProtocol = true
  · rw [if_pos hadapt, if_pos hadapt, hbuffer]
    generalize ToolProtocol.push context.texts.fromStr (toolsAvailable payload) buffer text = pushed
    obtain ⟨hview, hsource⟩ := texts_handleContent context channel pushed.1
      (turn.setBuffer channel pushed.2)
    have htexts : (turn.setBuffer channel pushed.2).texts = turn.texts := by
      cases channel <;> rfl
    rw [htexts] at hview
    refine ⟨hview, follows_of_source (hkept pushed.2) hsource fun hclosed => ?_⟩
    rw [hview]
    rw [htexts] at hclosed
    exact State.sideClosed_run hclosed [channelPiece channel pushed.1.visibleText]
  · rw [if_neg hadapt, if_neg hadapt]
    obtain ⟨hview, hsource⟩ := texts_emitVisible context channel text turn
    refine ⟨hview, follows_of_source h hsource fun hclosed => ?_⟩
    rw [hview]
    exact State.sideClosed_run hclosed [channelPiece channel text]

section
variable (h : Follows turn payload reasoningBuffer contentBuffer)
include h

theorem follows_receiveContent (delta : Value) :
    (receiveContent context delta turn).texts = turn.texts.run
        ((showText context payload contentBuffer (deltaText delta .content)).1.map .main) ∧
      Follows (receiveContent context delta turn) payload reasoningBuffer
        (showText context payload contentBuffer (deltaText delta .content)).2 := by
  rw [receiveContent]
  cases deltaText delta .content with
  | none => exact ⟨rfl, h⟩
  | some text =>
    exact follows_receiveText .content (fun _ => reasoningBuffer) id h h.content (fun _ => ⟨h.payload, rfl, h.reasoning⟩) text

theorem follows_receiveReasoning (delta : Value) :
    (receiveReasoning context delta turn).texts = turn.texts.run
        ((showText context payload reasoningBuffer (deltaText delta .reasoning)).1.map .side) ∧
      Follows (receiveReasoning context delta turn) payload
        (showText context payload reasoningBuffer (deltaText delta .reasoning)).2 contentBuffer := by
  rw [receiveReasoning]
  by_cases hclosed : turn.reasoningClosed = true
  · have hview : turn.texts.sideClosed = true := hclosed
    rw [if_pos hclosed, State.run_side_closed hview]
    exact ⟨rfl, h.payload, h.content, fun hopen => absurd (hclosed.symm.trans hopen) (by simp)⟩
  rw [if_neg hclosed]
  rw [not_eq_true] at hclosed
  cases deltaText delta .reasoning with
  | none => exact ⟨rfl, h⟩
  | some text =>
    exact follows_receiveText .reasoning id (fun _ => contentBuffer) h (h.reasoning hclosed)
      (fun _ => ⟨h.payload, h.content, fun _ => rfl⟩) text

theorem follows_receiveToolCalls (delta : Value) :
    (receiveToolCalls context delta turn).texts =
        turn.texts.run (if bringsCalls payload delta then [.cut] else []) ∧
      Follows (receiveToolCalls context delta turn) payload reasoningBuffer contentBuffer := by
  obtain ⟨hview, hsource⟩ := texts_receiveToolCalls context delta turn
  rw [h.payload] at hview
  refine ⟨hview, follows_of_source h hsource fun hclosed => ?_⟩
  rw [hview]
  exact State.sideClosed_run hclosed _

/-- The texts of a turn are those of the two channels, run over the pieces of the stream. -/
theorem texts_receiveStream (chunks : List Value) :
    (receiveStream context chunks turn).texts =
      turn.texts.run (streamPieces context payload reasoningBuffer contentBuffer chunks) := by
  induction chunks generalizing turn reasoningBuffer contentBuffer with
  | nil =>
    rw [receiveStream, foldl_nil, streamPieces]
    by_cases hadapt : context.adaptDeepseekToolProtocol = true
    · rw [finishChannel, if_pos hadapt, finishChannel, if_pos hadapt, if_pos hadapt]
      generalize hheld : ToolProtocol.finish context.texts.fromStr (toolsAvailable turn.payload)
        (turn.buffer .reasoning) = held
      obtain ⟨hview, hsource⟩ := texts_handleContent context .reasoning held turn
      obtain ⟨hview', -⟩ := texts_handleContent context .content
        (ToolProtocol.finish context.texts.fromStr
          (toolsAvailable (handleProviderToolContent context .reasoning held turn).payload)
          ((handleProviderToolContent context .reasoning held turn).buffer .content))
        (handleProviderToolContent context .reasoning held turn)
      have hpayload : (handleProviderToolContent context .reasoning held turn).payload = payload :=
        (congrArg Prod.fst hsource).trans h.payload
      have hbuffer : (handleProviderToolContent context .reasoning held turn).buffer .content =
          contentBuffer := (congrArg (fun s => s.2.2) hsource).trans h.content
      rw [hview'.trans (congrArg₂ _ hview rfl), hpayload, hbuffer, State.run_cons, State.run_cons,
        State.run_nil]
      have hside : turn.texts.step (channelPiece .reasoning held.visibleText) =
          turn.texts.step (.side (ToolProtocol.finish context.texts.fromStr
            (toolsAvailable payload) reasoningBuffer).visibleText) := by
        by_cases hclosed : turn.reasoningClosed = true
        · have hsideClosed : turn.texts.sideClosed = true := hclosed
          simp [channelPiece, State.step, hsideClosed]
        · rw [not_eq_true] at hclosed
          have hsame : turn.buffer .reasoning = reasoningBuffer := h.reasoning hclosed
          rw [← hheld, hsame, h.payload]
          rfl
      rw [hside]
      rfl
    · rw [finishChannel, if_neg hadapt, finishChannel, if_neg hadapt, if_neg hadapt]
      rfl
  | cons chunk chunks ih =>
    have hreasoning := @follows_receiveReasoning context _ _ _ _ h (chunkDelta chunk)
    have hcontent := @follows_receiveContent context _ _ _ _ hreasoning.2 (chunkDelta chunk)
    have hcalls := @follows_receiveToolCalls context _ _ _ _ hcontent.2 (chunkDelta chunk)
    have hlater := ih hcalls.2
    rw [hcalls.1, hcontent.1, hreasoning.1] at hlater
    rw [streamPieces, State.run_append, State.run_append, State.run_append]
    exact hlater

theorem payload_foldl
    (chunks : List Value) : (chunks.foldl (receiveChunk context) turn).payload = payload := by
  induction chunks generalizing turn reasoningBuffer contentBuffer with
  | nil => exact h.payload
  | cons chunk chunks ih =>
    have hreasoning := @follows_receiveReasoning context _ _ _ _ h (chunkDelta chunk)
    have hcontent := @follows_receiveContent context _ _ _ _ hreasoning.2 (chunkDelta chunk)
    exact ih (@follows_receiveToolCalls context _ _ _ _ hcontent.2 (chunkDelta chunk)).2

end

theorem payload_finishChannel (channel : TextChannel) (turn : TurnVars) :
    (finishChannel context channel turn).payload = turn.payload := by
  rw [finishChannel]
  split_ifs
  · exact congrArg Prod.fst (texts_handleContent context channel _ turn).2
  · rfl

/-- The deltas of a turn leave the payload as it is. -/
theorem payload_closeTurn (context : StreamContext) (iteration : ℕ) (vars : StreamVars)
    (chunks : List Value) :
    (closeTurn context (streamTurn context iteration vars chunks)).payload = vars.payload := by
  have hstart : Follows (TurnVars.start context iteration vars) vars.payload [] [] :=
    ⟨rfl, rfl, fun _ => rfl⟩
  have hclosed := (texts_closeContent (if turnToolCalls context
    (streamTurn context iteration vars chunks) = [] then "final_answer" else "commentary")
    (closeReasoningIfNeeded context (streamTurn context iteration vars chunks))).2
  have hreasoning := (texts_closeReasoning context (streamTurn context iteration vars chunks)).2
  have hstream : (streamTurn context iteration vars chunks).payload = vars.payload := by
    rw [streamTurn, receiveStream, payload_finishChannel, payload_finishChannel]
    exact payload_foldl hstart chunks
  exact (congrArg Prod.fst (hclosed.trans hreasoning)).trans hstream

end

/-! ## What is said -/

/-- The text of the deltas among some events. -/
def deltaTexts (events : List StreamEvent) : Text :=
  (events.filterMap fun
    | .textDelta _ _ delta => some delta
    | _ => none).flatten

/-- The text of a message item. -/
def itemText (item : Value) : Text :=
  ((item.pointer ["content", "0", "text"]).bind Value.asStr).getD []

def isMessageItem (item : Value) : Bool := item.getStr "type" = some (Text.lit "message")

/-- The texts of the messages that are closed among some events. -/
def messageTexts (events : List StreamEvent) : List Text :=
  events.filterMap fun
    | .itemDone _ item => if isMessageItem item then some (itemText item) else none
    | _ => none

@[simp] theorem deltaTexts_append :
    deltaTexts (events ++ later) = deltaTexts events ++ deltaTexts later := by simp [deltaTexts]

@[simp] theorem messageTexts_append :
    messageTexts (events ++ later) = messageTexts events ++ messageTexts later := by
  simp [messageTexts]

/-- The events of a turn say what the turn keeps. -/
structure Says (before : List StreamEvent) (turn : TurnVars) : Prop where
  extends_ : before <+: turn.events
  deltas : deltaTexts (turn.events.drop before.length) = turn.turnText
  messages : messageTexts (turn.events.drop before.length) =
    if turn.turnOutputClosed then [turn.turnText] else []
  opened : turn.turnOutputOpen = true ↔ turn.turnText ≠ []
  closed : turn.turnOutputClosed = true → turn.turnOutputOpen = true

/-- Further events that say nothing. -/
structure SaysNothing (events : List StreamEvent) : Prop where
  deltas : deltaTexts events = []
  messages : messageTexts events = []

section
variable {context : StreamContext} {before : List StreamEvent} {turn later : TurnVars}

theorem drop_events (h : before <+: turn.events) (events : List StreamEvent) :
    (turn.events ++ events).drop before.length = turn.events.drop before.length ++ events :=
  drop_append_of_le_length h.length_le

/-- Further events that say nothing, and the same message. -/
theorem Says.of_silent (h : Says before turn) {events : List StreamEvent}
    (hevents : later.events = turn.events ++ events) (hsilent : SaysNothing events)
    (htext : later.turnText = turn.turnText) (hopened : later.turnOutputOpen = turn.turnOutputOpen)
    (hclosed : later.turnOutputClosed = turn.turnOutputClosed) : Says before later where
  extends_ := hevents ▸ h.extends_.trans (prefix_append _ _)
  deltas := by
    rw [hevents, drop_events h.extends_, deltaTexts_append, hsilent.deltas, append_nil, htext]
    exact h.deltas
  messages := by
    rw [hevents, drop_events h.extends_, messageTexts_append, hsilent.messages, append_nil,
      htext, hclosed]
    exact h.messages
  opened := by
    rw [hopened, htext]
    exact h.opened
  closed := by
    rw [hopened, hclosed]
    exact h.closed

theorem says_closeReasoning (h : Says before turn) :
    Says before (closeReasoningIfNeeded context turn) := by
  rw [closeReasoningIfNeeded]
  split_ifs
  · refine h.of_silent rfl ⟨rfl, ?_⟩ rfl rfl rfl
    have htype : isMessageItem (reasoningResponseItem context.texts
        (context.uuid turn.iteration turn.fresh) turn.turnReasoning) = false := by
      rw [isMessageItem, reasoningResponseItem, getStr_setSome_ne (by decide)]
      rfl
    simp [messageTexts, htype]
  · exact h

/-- The message is closed with all its text. -/
theorem says_closeContent (phase : Text) (h : Says before turn) :
    Says before (closeContentIfNeeded phase turn) := by
  rw [closeContentIfNeeded]
  split_ifs with hclose
  · rw [and_eq_true, not_eq_true'] at hclose
    have hmessage : messageTexts [.itemDone (turn.turnOutputIndex.getD 0)
        (streamedMessageItem turn.turnItemId phase turn.turnText)] = [turn.turnText] := rfl
    refine ⟨h.extends_.trans (prefix_append _ _), ?_, ?_, h.opened, fun _ => hclose.1⟩
    · rw [drop_events h.extends_, deltaTexts_append, h.deltas]
      exact append_nil _
    · have hnone := h.messages
      rw [hclose.2, if_neg Bool.false_ne_true] at hnone
      rw [drop_events h.extends_, messageTexts_append, hnone, hmessage]
      rfl
  · exact h

theorem says_emitContent (h : Says before turn) (text : Text) :
    Says before (emitContentDelta context text turn) := by
  rw [emitContentDelta]
  split_ifs with hemit
  swap
  · exact h
  rw [and_eq_true, not_eq_true', not_eq_true', isEmpty_eq_false_iff] at hemit
  have hreasoning := @says_closeReasoning context before turn h
  have hclosed : (closeReasoningIfNeeded context turn).turnOutputClosed = false :=
    (congrArg State.closed (texts_closeReasoning context turn).1).trans hemit.2
  generalize closeReasoningIfNeeded context turn = closing at hreasoning hclosed
  have hnone := hreasoning.messages
  rw [hclosed, if_neg Bool.false_ne_true] at hnone
  -- The message is opened first, where it was not open before.
  have hopen : ∃ events, SaysNothing events ∧ (openContent closing).events = closing.events ++ events ∧
      (openContent closing).turnText = closing.turnText ∧
      (openContent closing).turnOutputOpen = true ∧
      (openContent closing).turnOutputClosed = false := by
    rw [openContent]
    split_ifs with hopened
    · exact ⟨[], ⟨rfl, rfl⟩, (append_nil _).symm, rfl, hopened, hclosed⟩
    · exact ⟨_, ⟨rfl, rfl⟩, rfl, rfl, rfl, hclosed⟩
  obtain ⟨events, hsilent, hevents, htext, hopened, hstill⟩ := hopen
  generalize openContent closing = opening at hevents htext hopened hstill
  have hbehind : before <+: opening.events :=
    hevents ▸ hreasoning.extends_.trans (prefix_append _ _)
  refine ⟨hbehind.trans (prefix_append _ _), ?_, ?_, ?_, ?_⟩
  · have hdelta : deltaTexts [.textDelta opening.turnItemId (opening.turnOutputIndex.getD 0) text] =
        text := append_nil _
    rw [appendContent, drop_events hbehind, deltaTexts_append, hdelta, hevents,
      drop_events hreasoning.extends_, deltaTexts_append, hsilent.deltas, append_nil,
      hreasoning.deltas, ← htext]
  · have hclosing : (appendContent text opening).turnOutputClosed = false := hstill
    rw [hclosing, if_neg Bool.false_ne_true, appendContent, drop_events hbehind, messageTexts_append,
      hevents, drop_events hreasoning.extends_, messageTexts_append, hnone, hsilent.messages]
    rfl
  · have hsome : (appendContent text opening).turnText ≠ [] :=
      fun hnil => hemit.1 (append_eq_nil_iff.mp hnil).2
    exact iff_of_true hopened hsome
  · exact fun hclosing => absurd (hstill.symm.trans hclosing) Bool.false_ne_true

theorem says_emitVisible (channel : TextChannel) (text : Text) (h : Says before turn) :
    Says before (emitVisible context channel text turn) := by
  cases channel with
  | content => exact says_emitContent h text
  | reasoning =>
    rw [emitVisible, emitReasoningDelta]
    split_ifs
    · exact ⟨h.extends_, h.deltas, h.messages, h.opened, h.closed⟩
    · exact h

theorem says_handleContent (toolContent : ToolProtocol.DeepSeekToolContent) (h : Says before turn) :
    Says before (handleProviderToolContent context channel toolContent turn) := by
  have hvisible := @says_emitVisible context before turn channel toolContent.visibleText h
  exact ⟨hvisible.extends_, hvisible.deltas, hvisible.messages, hvisible.opened, hvisible.closed⟩

theorem says_receiveText (text : Text) (h : Says before turn) :
    Says before (receiveText context channel text turn) := by
  rw [receiveText]
  split_ifs
  · refine says_handleContent channel _ ?_
    cases channel <;> exact ⟨h.extends_, h.deltas, h.messages, h.opened, h.closed⟩
  · exact says_emitVisible channel text h

/-- A call that is announced adds no text. -/
theorem says_announceCalls (delta : Value) (h : Says before turn) :
    Says before (announceCalls context delta turn) := by
  rw [announceCalls]
  induction deltaToolCalls delta generalizing turn with
  | nil => exact h
  | cons call calls ih =>
    refine ih ?_
    rw [announceCall]
    split
    split
    · exact ⟨h.extends_, h.deltas, h.messages, h.opened, h.closed⟩
    · exact h.of_silent rfl ⟨rfl, rfl⟩ rfl rfl rfl

theorem says_receiveChunk (chunk : Value) (h : Says before turn) :
    Says before (receiveChunk context turn chunk) := by
  have hreasoning : Says before (receiveReasoning context (chunkDelta chunk) turn) := by
    rw [receiveReasoning]
    split_ifs
    · exact h
    · cases deltaText (chunkDelta chunk) .reasoning with
      | none => exact h
      | some text => exact says_receiveText .reasoning text h
  have hcontent : Says before (receiveContent context (chunkDelta chunk)
      (receiveReasoning context (chunkDelta chunk) turn)) := by
    rw [receiveContent]
    cases deltaText (chunkDelta chunk) .content with
    | none => exact hreasoning
    | some text => exact says_receiveText .content text hreasoning
  rw [receiveChunk, receiveToolCalls]
  split_ifs
  · have hclosed := @says_closeContent before _ "commentary"
      (@says_closeReasoning context before _ hcontent)
    have hannounced := @says_announceCalls context before _ (chunkDelta chunk) hclosed
    exact ⟨hannounced.extends_, hannounced.deltas, hannounced.messages, hannounced.opened,
      hannounced.closed⟩
  · exact hcontent

theorem says_receiveStream (chunks : List Value) (h : Says before turn) :
    Says before (receiveStream context chunks turn) := by
  have hfinish : ∀ channel turn, Says before turn →
      Says before (finishChannel context channel turn) := by
    intro channel turn hturn
    rw [finishChannel]
    split_ifs
    · exact says_handleContent channel _ hturn
    · exact hturn
  refine hfinish _ _ (hfinish _ _ ?_)
  induction chunks generalizing turn with
  | nil => exact h
  | cons chunk chunks ih => exact ih (says_receiveChunk chunk h)

theorem says_start (context : StreamContext) (iteration : ℕ) (vars : StreamVars) :
    Says vars.events (TurnVars.start context iteration vars) where
  extends_ := prefix_refl _
  deltas := congrArg deltaTexts drop_length
  messages := congrArg messageTexts drop_length
  opened := by simp [TurnVars.start]
  closed := fun h => nomatch h

/-- What a whole turn says and keeps. -/
theorem says_closeTurn (context : StreamContext) (iteration : ℕ) (vars : StreamVars)
    (chunks : List Value) :
    let turn := closeTurn context (streamTurn context iteration vars chunks)
    Says vars.events turn ∧ turn.turnOutputClosed = turn.turnOutputOpen ∧
      turn.texts.main = (streamTurn context iteration vars chunks).texts.main ∧
      turn.texts.side = (streamTurn context iteration vars chunks).texts.side := by
  intro turn
  have hturn := @says_receiveStream context vars.events _ chunks (says_start context iteration vars)
  have hsaid : Says vars.events turn := says_closeContent _ (says_closeReasoning hturn)
  have htexts : turn.texts = _ := (texts_closeContent _ _).1
  rw [(texts_closeReasoning context _).1] at htexts
  refine ⟨hsaid, ?_, (congrArg State.main htexts).trans rfl, (congrArg State.side htexts).trans rfl⟩
  have hclosed : turn.turnOutputClosed = _ := congrArg State.closed htexts
  have hopened : turn.turnOutputOpen = _ := congrArg State.opened htexts
  cases hopen : turn.turnOutputOpen with
  | false =>
    rw [eq_false_iff]
    intro hcontra
    exact Bool.false_ne_true (hopen.symm.trans (hsaid.closed hcontra))
  | true =>
    rw [hclosed]
    have hbefore := (texts_closeReasoning context (streamTurn context iteration vars chunks)).1
    have hsame : (closeReasoningIfNeeded context
        (streamTurn context iteration vars chunks)).turnOutputOpen = true := by
      rw [← hopen, hopened]
      exact congrArg State.opened hbefore
    rw [hsame, Bool.or_true]

end

/-! ## No text is lost -/

section
variable (context : StreamContext) (iteration : ℕ) (vars : StreamVars) (chunks : List Value)

/-- The turn with its message and its reasoning closed. -/
def closedTurn : TurnVars := closeTurn context (streamTurn context iteration vars chunks)

/-- The events of the turn. -/
def turnEvents : List StreamEvent :=
  (closedTurn context iteration vars chunks).events.drop vars.events.length

/-- The deltas that are sent and the message that is closed have the whole text of the content, and
the whole reasoning is kept. -/
structure KeepsTexts : Prop where
  deltas : deltaTexts (turnEvents context iteration vars chunks) =
    visibleText context vars.payload .content chunks
  message : messageTexts (turnEvents context iteration vars chunks) =
    if visibleText context vars.payload .content chunks = [] then []
    else [visibleText context vars.payload .content chunks]
  reasoning : (closedTurn context iteration vars chunks).turnReasoning =
    visibleText context vars.payload .reasoning chunks

/-- A turn keeps all its texts exactly if no text is torn apart: no content comes behind content and
calls, and no reasoning behind reasoning and content or calls. -/
theorem keepsTexts_iff :
    KeepsTexts context iteration vars chunks ↔
      Untorn (kinds (streamPieces context vars.payload [] [] chunks)) := by
  obtain ⟨hsaid, hclosed, hmain, hside⟩ := says_closeTurn context iteration vars chunks
  have hfollows : Follows (TurnVars.start context iteration vars) vars.payload [] [] :=
    ⟨rfl, rfl, fun _ => rfl⟩
  have htexts := @texts_receiveStream context _ _ _ _ hfollows chunks
  obtain ⟨hmainOf, hsideOf⟩ := streamPieces_parts context vars.payload [] [] chunks
  rw [← run_kept_iff, hmainOf, hsideOf]
  have hstart : (TurnVars.start context iteration vars).texts = ({} : State Char) := rfl
  rw [hstart] at htexts
  have htext : (closedTurn context iteration vars chunks).turnText =
      (({} : State Char).run (streamPieces context vars.payload [] [] chunks)).main :=
    hmain.trans (congrArg State.main htexts)
  have hreasoning : (closedTurn context iteration vars chunks).turnReasoning =
      (({} : State Char).run (streamPieces context vars.payload [] [] chunks)).side :=
    hside.trans (congrArg State.side htexts)
  have hdeltas : deltaTexts (turnEvents context iteration vars chunks) =
      (closedTurn context iteration vars chunks).turnText := hsaid.deltas
  constructor
  · intro h
    refine ⟨?_, ?_⟩
    · rw [← htext, ← hdeltas]
      exact h.deltas
    · rw [← hreasoning]
      exact h.reasoning
  · intro h
    have hwhole : (closedTurn context iteration vars chunks).turnText =
        visibleText context vars.payload .content chunks := htext.trans h.1
    refine ⟨hdeltas.trans hwhole, ?_, hreasoning.trans h.2⟩
    have hmessages : messageTexts (turnEvents context iteration vars chunks) = _ := hsaid.messages
    have hopened := hsaid.opened
    rw [hmessages, hclosed]
    rw [← hwhole]
    by_cases hnil : (closedTurn context iteration vars chunks).turnText = []
    · have hnot : ¬ (closedTurn context iteration vars chunks).turnOutputOpen = true :=
        fun hopen => hopened.mp hopen hnil
      rw [if_pos hnil]
      exact if_neg hnot
    · rw [if_neg hnil]
      exact if_pos (hopened.mpr hnil)

end

/-! ### Text behind calls -/

/-- A stream without an adapter, whose tools answer at once. -/
def plainStream : StreamContext :=
  { ToolLoop.quietLoop with
    adaptDeepseekToolProtocol := false
    autoCompaction := none
    streamChatCompletions := fun _ _ => .error [] }

def deltaChunk (delta : List (Text × Value)) : Value :=
  .object [("choices", .array [.object [("delta", .object delta)]])]

def textChunk (text : Text) : Value := deltaChunk [("content", .string text)]

def callChunk (id name : Text) : Value :=
  deltaChunk [("tool_calls", .array [.object [
    ("function", .object [("arguments", .string "\x7b\x7d"), ("name", .string name)]),
    ("id", .string id), ("index", .number (.posInt 0))]])]

/-- A request with tools. -/
def toolPayload : Value := .object [("messages", .array []), ("tools", .array [.null])]

/-- Content behind a call is not sent on and is missing in the message. -/
theorem text_behind_call_lost :
    ¬ KeepsTexts plainStream 0 { payload := toolPayload }
      [textChunk "before", callChunk "call_1" "web_search", textChunk "behind"] := by
  intro h
  have hlost : deltaTexts (turnEvents plainStream 0 { payload := toolPayload }
      [textChunk "before", callChunk "call_1" "web_search", textChunk "behind"]) ≠
    visibleText plainStream toolPayload .content
      [textChunk "before", callChunk "call_1" "web_search", textChunk "behind"] := by
    decide +kernel
  exact hlost h.deltas

end CodeSeeX.ResponseStream
