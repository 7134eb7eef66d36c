import EchoFrame.DemoCommands
import EchoFrame.Exchange

/-! The calls of the demo proxy: its messages as they are read back, and what the
dispatcher of the server makes of them. -/
namespace EchoFrame
open Verif

namespace MyDemoMessage

variable {m : MyDemoMessage}

/-- The first space of a message is at the end of its command, or within it. -/
theorem spacePos_encode (m : MyDemoMessage) : spacePos m.encode = spacePos (m.cmd ++ [space]) := by
  have hfind : (m.cmd ++ [space]).findIdx? (· == space) ≠ none := by
    rw [Ne, List.findIdx?_eq_none_iff]
    intro h
    exact absurd (h space (by simp)) (by simp)
  unfold spacePos encode
  rw [List.findIdx?_append]
  obtain ⟨pos, hpos⟩ := Option.ne_none_iff_exists'.mp hfind
  rw [hpos]
  rfl

/-- Where the command ends at a space that counts, there it is cut off. -/
theorem decodeCmd_encode_of_spacePos (h : spacePos (m.cmd ++ [space]) = some m.cmd.length) :
    decodeCmd m.encode = m.cmd ∧ MyDemoDispatcher.getPacketCmd m.encode = m.cmd := by
  unfold decodeCmd MyDemoDispatcher.getPacketCmd
  rw [spacePos_encode, h]
  dsimp only [encode]
  rw [List.append_assoc, List.take_left]
  exact ⟨rfl, rfl⟩

theorem length_encode (m : MyDemoMessage) : m.encode.length = m.cmd.length+1+m.msg.length := by
  simp only [encode, List.length_append, List.length_singleton]

theorem drop_encode (m : MyDemoMessage) : m.encode.drop (m.cmd.length+1) = m.msg := by
  have hlength : m.cmd.length+1 = (m.cmd ++ [space]).length := by simp
  rw [encode, hlength, List.drop_left]

/-- A message is read as the command that is found in it and what is behind the next byte. -/
theorem decode_encode_eq_iff :
    decode (some m.encode) = .ok m ↔ decodeCmd m.encode = m.cmd := by
  have hdecode : decode (some m.encode) = if (decodeCmd m.encode).length+1 ≤ m.encode.length then
      .ok ⟨decodeCmd m.encode, m.encode.drop ((decodeCmd m.encode).length+1)⟩
      else .error .outOfBounds := rfl
  rw [hdecode]
  constructor
  · intro h
    split at h
    · exact congrArg MyDemoMessage.cmd (Except.ok.inj h)
    · cases h
  · intro h
    have hroom : m.cmd.length+1 ≤ m.encode.length := by
      rw [length_encode]
      omega
    rw [h, if_pos hroom, drop_encode]

/-- A position that counts is one in the command. -/
theorem spacePos_le {pos : ℕ} (h : spacePos (m.cmd ++ [space]) = some pos) :
    pos ≤ m.cmd.length := by
  have hlt := (spacePos_lt h).2
  rw [List.length_append, List.length_singleton] at hlt
  omega

/-- A message of less than 2^32 bytes comes back from them exactly when its command is not empty
and has no space and a length that an `int32_t` holds; or else, by the two bytes that the parser
leaves off a message without a space that counts, when the body is one byte. -/
theorem decode_encode_iff (m : MyDemoMessage) (_ : m.encode.length < 2^32) :
    decode (some m.encode) = .ok m ↔ spacePos (m.cmd ++ [space]) = some m.cmd.length ∨
      spacePos (m.cmd ++ [space]) = none ∧ m.cmd ≠ [] ∧ m.msg.length = 1 := by
  rw [decode_encode_eq_iff]
  have hlength := length_encode m
  cases hpos : spacePos (m.cmd ++ [space]) with
  | some pos =>
    have hle := spacePos_le hpos
    have hcmd : decodeCmd m.encode = m.cmd.take pos := by
      unfold decodeCmd
      rw [spacePos_encode, hpos]
      dsimp only [encode]
      rw [List.append_assoc, List.take_append_of_le_length hle]
    rw [hcmd]
    constructor
    · intro h
      have hlen := congrArg List.length h
      rw [List.length_take] at hlen
      exact .inl (congrArg some (by omega))
    · rintro (h | ⟨h, -⟩)
      · rw [Option.some.inj h, List.take_length]
      · cases h
  | none =>
    have hcmd : decodeCmd m.encode =
        if m.encode.length > 2 then m.encode.take (m.encode.length-2) else m.encode := by
      unfold decodeCmd
      rw [spacePos_encode, hpos]
    rw [hcmd]
    constructor
    · intro h
      have hlen := congrArg List.length h
      split at hlen
      · rw [List.length_take] at hlen
        refine .inr ⟨rfl, ?_, by omega⟩
        rintro hnil
        rw [hnil, List.length_nil] at hlength hlen
        omega
      · omega
    · rintro (h | ⟨-, hne, hone⟩)
      · cases h
      · have hcmdpos := List.length_pos_iff.mpr hne
        rw [if_pos (by omega), show m.encode.length-2 = m.cmd.length by omega, encode,
          List.append_assoc, List.take_left]

/-- A user name with a space comes back; with an empty command nothing does. -/
theorem decode_encode_username :
    decode (some (encode ⟨chars "username", chars "a b"⟩)) =
        .ok ⟨chars "username", chars "a b"⟩ ∧
      decode (some (encode ⟨[], chars "a b"⟩)) ≠ .ok ⟨[], chars "a b"⟩ := by
  constructor
  · exact (decode_encode_iff _ (by decide)).mpr (.inl (by decide))
  · exact fun h => absurd ((decode_encode_iff _ (by decide)).mp h) (by decide)

end MyDemoMessage

namespace MyDemoDispatcher
open MyDemoMessage

/-- A command with a handler is not shorter than the shortest of them. -/
theorem length_of_findHandler {cmd : List Byte} {handler : MyDemoHandler}
    (h : findHandler cmd = some handler) : 4 ≤ cmd.length := by
  unfold findHandler at h
  split at h
  · next he => exact he ▸ by decide
  · split at h
    · next he => exact he ▸ by decide
    · split at h
      · next he => exact he ▸ by decide
      · cases h

theorem length_getPacketCmd_le (m : List Byte) : (getPacketCmd m).length ≤ m.length := by
  unfold getPacketCmd
  split
  · exact List.length_take_le' _ _
  · split
    · exact List.length_take_le' _ _
    · exact le_rfl

/-- A payload for which a handler is found is long enough for both parsers. -/
theorem decode_of_findHandler {m : List Byte} {handler : MyDemoHandler}
    (h : findHandler (getPacketCmd m) = some handler) :
    decodeCmd m = getPacketCmd m ∧
      MyDemoMessage.decode (some m) =
        .ok ⟨getPacketCmd m, m.drop ((getPacketCmd m).length+1)⟩ := by
  have hcmd := length_of_findHandler h
  have hle := length_getPacketCmd_le m
  have hsame : getPacketCmd m = decodeCmd m := getPacketCmd_eq_iff.mpr (.inl (by omega))
  have hroom : (decodeCmd m).length+1 ≤ m.length :=
    length_decodeCmd_lt_iff.mpr (.inl (by omega))
  refine ⟨hsame.symm, ?_⟩
  rw [hsame]
  exact if_pos hroom

/-- What is answered to a command and the text behind it, if anything is. -/
def reply (cmd text : List Byte) : Option (List Byte) :=
  if cmd = chars "username" then some (chars "Your name is " ++ text)
  else if cmd = chars "password" then some (chars "Your password is " ++ text)
  else none

def textOf (m : List Byte) : List Byte := m.drop ((getPacketCmd m).length+1)

def serve (m : List Byte) : Option (List Byte) :=
  (reply (getPacketCmd m) (textOf m)).map fun msg => MyDemoMessage.encode ⟨getPacketCmd m, msg⟩

theorem spacePos_of_reply {cmd text msg : List Byte} (h : reply cmd text = some msg) :
    spacePos (cmd ++ [space]) = some cmd.length := by
  unfold reply at h
  split at h
  · next he =>
    rw [he]
    decide
  · split at h
    · next he =>
      rw [he]
      decide
    · cases h

/-- The handler that is found takes the body off, and its answer has the same command. -/
theorem dispatchPayload_of_findHandler {m : List Byte} {handler : MyDemoHandler}
    {req : MyDemoMessage} (hhandler : findHandler (getPacketCmd m) = some handler)
    (hdecode : handler.decode (some m) = .ok req) (needResponse : Bool) :
    dispatchPayload (some m) needResponse = .ok ⟨.kHandleResultSuccess,
      if (handler.invoke req.msg needResponse).2 then
        some (handler.encode ⟨req.cmd, (handler.invoke req.msg needResponse).1⟩) else none,
      (handler.invoke req.msg needResponse).2⟩ := by
  have hderef : deref (some m) = .ok m := rfl
  unfold dispatchPayload
  rw [hderef]
  dsimp only [bind, Except.bind]
  rw [hhandler]
  dsimp only
  rw [hdecode]

/-- A payload is answered; or it makes the handler give the answer up; or it is refused. -/
theorem dispatchPayload_eq (m : List Byte) (needResponse : Bool) :
    dispatchPayload (some m) needResponse = .ok (
      if (serve m).isSome then
        ⟨.kHandleResultSuccess, if needResponse then serve m else none, needResponse⟩
      else if getPacketCmd m = chars "quit" then ⟨.kHandleResultSuccess, none, false⟩
      else ⟨.kHandleResultPacketInvalid, none, needResponse⟩) := by
  have hfind : findHandler (getPacketCmd m) = if getPacketCmd m = chars "username" then
    some MyUserNameHandler else if getPacketCmd m = chars "password" then some MyPasswordHandler
    else if getPacketCmd m = chars "quit" then some MyQuitHandler else none := rfl
  have hserve : serve m = (reply (getPacketCmd m) (textOf m)).map fun msg =>
    MyDemoMessage.encode ⟨getPacketCmd m, msg⟩ := rfl
  unfold reply at hserve
  by_cases huser : getPacketCmd m = chars "username"
  · rw [if_pos huser] at hfind hserve
    rw [hserve, dispatchPayload_of_findHandler hfind (decode_of_findHandler hfind).2]
    rfl
  rw [if_neg huser] at hfind hserve
  by_cases hpass : getPacketCmd m = chars "password"
  · rw [if_pos hpass] at hfind hserve
    rw [hserve, dispatchPayload_of_findHandler hfind (decode_of_findHandler hfind).2]
    rfl
  rw [if_neg hpass] at hfind hserve
  rw [hserve]
  by_cases hquit : getPacketCmd m = chars "quit"
  · rw [if_pos hquit] at hfind
    have hdecode : MyQuitHandler.decode (some m) = .ok ⟨decodeCmd m, []⟩ := rfl
    rw [dispatchPayload_of_findHandler hfind hdecode, hquit]
    rfl
  · rw [if_neg hquit] at hfind
    have hderef : deref (some m) = .ok m := rfl
    unfold dispatchPayload
    rw [hderef]
    dsimp only [bind, Except.bind]
    rw [hfind, if_neg hquit]
    rfl

/-- The proxy reads an answer back, whatever its text is. -/
theorem decode_encode_of_reply {cmd text msg : List Byte} (h : reply cmd text = some msg) :
    MyDemoProxy.decode (some (MyDemoMessage.encode ⟨cmd, msg⟩)) = .ok (some ⟨cmd, msg⟩) := by
  have hspace : spacePos ((MyDemoMessage.mk cmd msg).cmd ++ [space]) = some cmd.length :=
    spacePos_of_reply h
  rw [MyDemoProxy.decode, decode_encode_eq_iff.mpr (decodeCmd_encode_of_spacePos hspace).1]
  rfl

end MyDemoDispatcher

open MyDemoDispatcher MyDemoMessage

/-- A call of the proxy: one of the two commands that are answered, and its text. -/
structure DemoCall where
  session : MySession
  request : MyDemoMessage
  known : request.cmd = chars "username" ∨ request.cmd = chars "password"
  fits : MyMagicMessage.headLen+request.encode.length+32 < 2^32

namespace DemoCall

def sent (call : DemoCall) : SentCall where
  session := call.session
  payload := some call.request.encode
  fits := by
    rintro _ ⟨⟩
    have hfits := call.fits
    refine ⟨List.ne_nil_of_length_pos ?_, by omega⟩
    rw [length_encode]
    omega

def answer (call : DemoCall) : List Byte :=
  if call.request.cmd = chars "username" then chars "Your name is " ++ call.request.msg
  else chars "Your password is " ++ call.request.msg

theorem reply_eq (call : DemoCall) :
    reply call.request.cmd call.request.msg = some call.answer := by
  unfold reply answer
  rcases call.known with h | h
  · rw [if_pos h, if_pos h]
  · have hne : call.request.cmd ≠ chars "username" := by
      rw [h]
      decide
    rw [if_neg hne, if_neg hne, if_pos h]

/-- The server takes the command and the whole text out of the payload of a call. -/
theorem serve_encode (call : DemoCall) :
    serve call.request.encode = some (MyDemoMessage.encode ⟨call.request.cmd, call.answer⟩) := by
  have hcmd := (decodeCmd_encode_of_spacePos (spacePos_of_reply call.reply_eq)).2
  have htext : textOf call.request.encode = call.request.msg := by
    rw [textOf, hcmd]
    exact drop_encode call.request
  rw [serve, hcmd, htext, call.reply_eq, Option.map_some]

theorem length_answer_le (call : DemoCall) : call.answer.length ≤ 17+call.request.msg.length := by
  have hname : (chars "Your name is ").length = 13 := by decide
  have hpass : (chars "Your password is ").length = 17 := by decide
  unfold answer
  split
  · rw [List.length_append]
    omega
  · rw [List.length_append]
    omega

theorem served (call : DemoCall) : call.sent.Served dispatchPayload serve := by
  rintro _ ⟨⟩
  have hfits := call.fits
  have hanswer := call.length_answer_le
  have hserve := call.serve_encode
  constructor
  · rw [hserve, Option.getD_some, length_encode]
    rw [length_encode] at hfits
    dsimp only
    omega
  · rw [dispatchPayload_eq, hserve]
    rfl

/-- The task reads the text of its call, with what the server puts before it. -/
def Answered (call : DemoCall) (task : SessionTask) : Prop :=
  ∃ payload, task = .data call.session payload ∧
    MyDemoProxy.decode payload = .ok (some ⟨call.request.cmd, call.answer⟩)

theorem answered_task (call : DemoCall) : call.Answered (call.sent.task serve) := by
  have hserve := call.serve_encode
  have hlength : 0 < (MyDemoMessage.encode ⟨call.request.cmd, call.answer⟩).length := by
    rw [length_encode]
    omega
  have hfilter : (serve call.request.encode).filter (fun bytes => !bytes.isEmpty) =
      serve call.request.encode := by
    rw [hserve]
    refine Option.filter_eq_some_iff.mpr ⟨rfl, ?_⟩
    rw [Bool.not_eq_true', List.isEmpty_eq_false_iff]
    exact List.ne_nil_of_length_pos hlength
  refine ⟨serve call.request.encode, ?_, ?_⟩
  · exact congrArg (SessionTask.data call.session) hfilter
  · rw [hserve]
    exact decode_encode_of_reply call.reply_eq

end DemoCall

/-- Calls of `setUsername` and `setPassword` that wait on a connection, with any bytes as
their texts. In whatever order the server handles them, each has an answer; and however the
bytes of the answers are cut, they are read, and each session gets one task, which reads the
text that it sent. -/
theorem demo_calls_answered {calls : List DemoCall} {uid : UInt32} {s : ProxyState}
    (hconn : MyProxy.bufferOf uid s = some [])
    (hpending : ∀ call ∈ calls,
      s.loops.pending call.session.client call.session.requestId = some call.session)
    (hdistinct : (calls.map fun call => call.session.requestId).Nodup)
    {order : List DemoCall} (horder : order.Perm calls) :
    (∃ answers, SentCall.Answers dispatchPayload (order.map DemoCall.sent) answers) ∧
    ∀ answers, SentCall.Answers dispatchPayload (order.map DemoCall.sent) answers →
      ∀ arrivals : List (List (List Byte)),
        arrivals.flatten.flatten = (answers.flatMap Answer.sent).flatten →
      (∃ made t, MyProxy.Reads MyMagicCodec uid s (arrivals.map .arrival) made t) ∧
      ∀ made t, MyProxy.Reads MyMagicCodec uid s (arrivals.map .arrival) made t →
        (∃ tasks, t.tasks = s.tasks ++ tasks ∧ List.Forall₂ DemoCall.Answered order tasks) ∧
          ∀ call ∈ calls,
            t.loops.pending call.session.client call.session.requestId = none := by
  have hserved : ∀ call ∈ order.map DemoCall.sent, call.Served dispatchPayload serve := by
    intro call hmem
    obtain ⟨demo, -, rfl⟩ := List.mem_map.mp hmem
    exact demo.served
  refine ⟨SentCall.exists_answers hserved, ?_⟩
  intro answers hanswers arrivals harrivals
  refine ⟨MyProxy.reads_return _ _ _ _, ?_⟩
  intro made t hreads
  have hbytes : arrivals.flatten.flatten =
      ((order.map DemoCall.sent).map fun call => (call.response serve).encode).flatten := by
    rw [harrivals, SentCall.answers_eq hserved hanswers, List.flatMap_map]
    exact congrArg List.flatten List.map_eq_flatMap.symm
  have hwait : ∀ call ∈ order.map DemoCall.sent,
      s.loops.pending call.session.client call.session.requestId = some call.session := by
    intro call hmem
    obtain ⟨demo, hdemo, rfl⟩ := List.mem_map.mp hmem
    exact hpending demo (horder.subset hdemo)
  have hids : ((order.map DemoCall.sent).map fun call => call.session.requestId).Nodup := by
    rw [List.map_map]
    exact (horder.map _).nodup_iff.mpr hdistinct
  obtain ⟨-, htasks, hended, -⟩ :=
    SentCall.reads_responses hserved hconn hwait hids hbytes hreads
  refine ⟨⟨_, htasks, ?_⟩, ?_⟩
  · rw [List.forall₂_map_right_iff, List.forall₂_map_right_iff]
    exact List.forall₂_same.mpr fun call _ => call.answered_task
  · intro call hmem
    exact hended call.sent (List.mem_map.mpr ⟨call, horder.symm.subset hmem, rfl⟩)

def usernameCall : DemoCall where
  session := ⟨0, 0x70001, 5⟩
  request := ⟨chars "username", chars "a b"⟩
  known := .inl rfl
  fits := by decide

def passwordCall : DemoCall where
  session := ⟨1, 0x70001, 6⟩
  request := ⟨chars "password", []⟩
  known := .inr rfl
  fits := by decide

/-- The server handles the second call first; the answers come in two reads. -/
theorem demo_calls_answered_two :
    let answers := [(passwordCall.sent.response serve).encode,
      (usernameCall.sent.response serve).encode]
    usernameCall.answer = chars "Your name is a b" ∧
    passwordCall.answer = chars "Your password is " ∧ ∃ made t,
      MyProxy.Reads MyMagicCodec 0x70001 twoSessions
        [.arrival [answers.flatten.take 30], .arrival [answers.flatten.drop 30]] made t ∧
      ∃ tasks, t.tasks = tasks ∧
        List.Forall₂ DemoCall.Answered [passwordCall, usernameCall] tasks := by
  intro answers
  refine ⟨by decide, by decide, ?_⟩
  have hpending : ∀ call ∈ [usernameCall, passwordCall], twoSessions.loops.pending
      call.session.client call.session.requestId = some call.session := by
    simp only [List.forall_mem_cons]
    exact ⟨rfl, rfl, fun _ h => absurd h List.not_mem_nil⟩
  have hanswers : SentCall.Answers dispatchPayload
      ([passwordCall, usernameCall].map DemoCall.sent) (answers.map (answerWith true)) :=
    .cons (SentCall.handlePacket_frame passwordCall.served)
      (.cons (SentCall.handlePacket_frame usernameCall.served) .nil)
  have harrivals : [[answers.flatten.take 30], [answers.flatten.drop 30]].flatten.flatten =
      ((answers.map (answerWith true)).flatMap Answer.sent).flatten := by decide
  obtain ⟨⟨made, t, hreads⟩, hall⟩ := (demo_calls_answered bufferOf_twoSessions hpending
    (by decide) (List.Perm.swap _ _ _)).2 _ hanswers _ harrivals
  exact ⟨made, t, hreads, (hall made t hreads).1⟩

end EchoFrame
