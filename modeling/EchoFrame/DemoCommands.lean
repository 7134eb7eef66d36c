import EchoFrame.PayloadDispatch

/-! The two parsers of the command of a demo payload, and the slices behind it. -/
namespace EchoFrame

/-- The handler that is chosen is that of the command in the message, and no body begins
behind the end of the payload. -/
structure ParsesCommand (m : List Byte) : Prop where
  command : MyDemoDispatcher.getPacketCmd m = MyDemoMessage.decodeCmd m
  userName : MyUserNameHandler.decode (some m) ≠ .error .outOfBounds
  password : MyPasswordHandler.decode (some m) ≠ .error .outOfBounds
  proxy : MyDemoProxy.decode (some m) ≠ .error .outOfBounds

namespace MyDemoMessage

variable {m : List Byte} {pos : ℕ}

theorem spacePos_lt (h : spacePos m = some pos) : 0 < pos ∧ pos < m.length := by
  obtain ⟨hfind, hpos⟩ := Option.filter_eq_some_iff.mp h
  rw [decide_eq_true_iff] at hpos
  obtain ⟨hlt, -⟩ := List.findIdx?_eq_some_iff_getElem.mp hfind
  exact ⟨hpos.1, hlt⟩

/-- Without a space to go by, the parsers differ on two bytes alone. -/
theorem getPacketCmd_eq_iff :
    MyDemoDispatcher.getPacketCmd m = decodeCmd m ↔ m.length ≠ 2 ∨ spacePos m ≠ none := by
  unfold MyDemoDispatcher.getPacketCmd decodeCmd
  cases spacePos m with
  | some pos => exact iff_of_true rfl (.inr (Option.some_ne_none pos))
  | none =>
    dsimp only
    rw [or_iff_left (not_not_intro rfl)]
    by_cases h2 : m.length = 2
    · rw [h2, if_pos (by decide), if_neg (by decide)]
      refine iff_of_false ?_ (not_not_intro rfl)
      intro he
      rw [← he] at h2
      cases h2
    · by_cases h3 : m.length > 2
      · rw [if_pos h3, if_pos (by omega)]
        exact iff_of_true rfl h2
      · rw [if_neg h3, if_neg (by omega)]
        exact iff_of_true rfl h2

theorem length_decodeCmd_lt_iff :
    (decodeCmd m).length+1 ≤ m.length ↔ 3 ≤ m.length ∨ spacePos m ≠ none := by
  unfold decodeCmd
  cases hpos : spacePos m with
  | some pos =>
    have hlt := (spacePos_lt hpos).2
    dsimp only
    rw [List.length_take]
    exact iff_of_true (by omega) (.inr (Option.some_ne_none pos))
  | none =>
    dsimp only
    rw [or_iff_left (not_not_intro rfl)]
    split
    · rw [List.length_take]
      omega
    · omega

theorem decode_inBounds_iff :
    decode (some m) ≠ .error .outOfBounds ↔ (decodeCmd m).length+1 ≤ m.length := by
  change (if (decodeCmd m).length+1 ≤ m.length then
    Except.ok (⟨decodeCmd m, m.drop ((decodeCmd m).length+1)⟩ : MyDemoMessage)
    else .error Fault.outOfBounds) ≠ _ ↔ _
  split
  · next h => exact iff_of_true (fun he => nomatch he) h
  · next h => exact iff_of_false (not_not_intro rfl) h

theorem proxy_inBounds_iff :
    MyDemoProxy.decode (some m) ≠ .error .outOfBounds ↔ (decodeCmd m).length+1 ≤ m.length := by
  rw [← decode_inBounds_iff, MyDemoProxy.decode]
  cases decode (some m) with
  | error fault =>
    constructor
    · intro h he
      cases he
      exact h rfl
    · intro h he
      cases he
      exact h rfl
  | ok message => exact iff_of_true (fun he => nomatch he) (fun he => nomatch he)

/-- A space that counts leaves room for itself, so it is in the second place of two bytes. -/
theorem spacePos_ne_none_of_length (h : m.length = 2) :
    spacePos m ≠ none ↔ spacePos m = some 1 := by
  constructor
  · intro hne
    obtain ⟨pos, hpos⟩ := Option.ne_none_iff_exists'.mp hne
    have hlt := spacePos_lt hpos
    rw [hpos, show pos = 1 by omega]
  · intro he
    rw [he]
    exact Option.some_ne_none 1

/-- Both parsers agree and stay in the payload exactly from three bytes on, and for a command
of one byte with a space behind it. -/
theorem parsesCommand_iff (m : List Byte) :
    ParsesCommand m ↔ 3 ≤ m.length ∨ m.length = 2 ∧ spacePos m = some 1 := by
  have hroom : ParsesCommand m ↔
      (m.length ≠ 2 ∨ spacePos m ≠ none) ∧ (3 ≤ m.length ∨ spacePos m ≠ none) := by
    rw [← getPacketCmd_eq_iff, ← length_decodeCmd_lt_iff]
    constructor
    · exact fun h => ⟨h.command, decode_inBounds_iff.mp h.userName⟩
    · rintro ⟨hcmd, hlen⟩
      have hdecode := decode_inBounds_iff.mpr hlen
      exact ⟨hcmd, hdecode, hdecode, proxy_inBounds_iff.mpr hlen⟩
  rw [hroom]
  by_cases h2 : m.length = 2
  · rw [← spacePos_ne_none_of_length h2]
    constructor
    · rintro ⟨h | h, -⟩
      · exact absurd h2 h
      · exact .inr ⟨h2, h⟩
    · rintro (h | h)
      · omega
      · exact ⟨.inr h.2, .inr h.2⟩
  · constructor
    · rintro ⟨-, h | h⟩
      · exact .inl h
      · obtain ⟨pos, hpos⟩ := Option.ne_none_iff_exists'.mp h
        have hlt := spacePos_lt hpos
        omega
    · rintro (h | h)
      · exact ⟨.inl h2, .inl h⟩
      · exact absurd h.1 h2

/-- Of the payload `ab` one parser makes nothing and the other `ab`, and for `a` the body
begins two bytes in. -/
theorem not_parsesCommand :
    MyDemoDispatcher.getPacketCmd [97,98] = [] ∧ decodeCmd [97,98] = [97,98] ∧
      ¬ ParsesCommand [97,98] ∧
      MyDemoProxy.decode (some [97]) = .error .outOfBounds ∧ ¬ ParsesCommand [97] := by
  refine ⟨by decide, by decide, ?_, rfl, ?_⟩
  · intro h
    exact absurd h.command (by decide)
  · intro h
    exact h.proxy rfl

end MyDemoMessage
end EchoFrame
