import EchoFrame.CheckedCasts
import EchoFrame.SplitLoop
import EchoFrame.TrimLoops

/-! The text form of a `MyEndpoint`, `tcp -h 127.0.0.1 -p 12345 -n test_server -t 3000`. -/
namespace EchoFrame
open Verif

/-- The protocol is an enumeration over `uint32_t`. -/
structure MyEndpoint where
  protocol_ : UInt32 := 0
  name_ : List Byte := []
  timeout_ : IntegralType.unsignedInt.Value := ⟨3000, by decide⟩
  host_ : List Byte := []
  port_ : IntegralType.unsignedShort.Value := ⟨0, by decide⟩
  deriving DecidableEq

namespace MyEndpoint

def kTCP : UInt32 := 0
def kUDP : UInt32 := 1
def kUNIX : UInt32 := 2

def isvalid (ep : MyEndpoint) : Bool :=
  !(ep.name_.isEmpty || ep.protocol_ < kTCP || kUNIX < ep.protocol_)

end MyEndpoint

namespace MyCommon

def tolower (b : Byte) : Byte := if 65 ≤ b.toNat ∧ b.toNat ≤ 90 then b+32 else b

def lower (str : List Byte) : List Byte := str.map tolower

def tostr {T : IntegralType} (v : T.Value) : List Byte := decimal v.val.toNat

/-- `trim` with a token that is not empty, which ends. -/
def trimToken (str c : List Byte) (hc : c ≠ []) : List Byte := (trim str c).get (isSome_trim hc str)

theorem isSome_splitWords (str : List Byte) : (split id str [32] true).isSome = true := by
  rw [split_words]
  rfl

def splitWords (str : List Byte) : List (List Byte) :=
  (split id str [32] true).get (isSome_splitWords str)

theorem isSome_strto {T : IntegralType} (hT : T.signed = false) (v : List Byte) :
    (strto T v).isSome = true := by
  rw [strto, MyCast.ofText, hT, if_neg Bool.false_ne_true]
  split <;> rfl

def strtoUnsigned (T : IntegralType) (hT : T.signed = false) (v : List Byte) : T.Value :=
  (strto T v).get (isSome_strto hT v)

end MyCommon

namespace MyEndpointHelper
open MyCommon MyEndpoint

def tcp : List Byte := [116,99,112]
def udp : List Byte := [117,100,112]
def unix : List Byte := [117,110,105,120]

def setOption (ep : MyEndpoint) (key value : List Byte) : MyEndpoint :=
  let k := lower (trimToken (trimToken key [32] (by decide)) [45] (by decide))
  let v := lower (trimToken value [32] (by decide))
  if k = [104] then {ep with host_ := v}
  else if k = [112] then {ep with port_ := strtoUnsigned .unsignedShort (by decide) v}
  else if k = [110] then {ep with name_ := trimToken value [32] (by decide)}
  else if k = [116] then {ep with timeout_ := strtoUnsigned .unsignedInt (by decide) v}
  else ep

/-- What comes before the loop: the result where the function returns there, or the endpoint
that the options are set in. -/
def parseProtocol (vec : List (List Byte)) : Except MyEndpoint MyEndpoint :=
  match vec with
  | [] => .error {}
  | word :: _ =>
    let proto := lower (trimToken word [32] (by decide))
    let checkCount (ep : MyEndpoint) : Except MyEndpoint MyEndpoint :=
      -- `vec.size() - 1 % 2 == 0`: the remainder is taken first
      if vec.length-1%2 = 0 then .error ep else .ok ep
    if proto = tcp then checkCount {protocol_ := kTCP}
    else if proto = udp then checkCount {protocol_ := kUDP}
    else if proto = unix then checkCount {protocol_ := kUNIX}
    else .error {}

/-- The variables of the loop, `outside` where it has read past the tokens. -/
structure OptionState where
  i : ℕ
  ep : MyEndpoint
  outside : Bool

def optionsBody (vec : List (List Byte)) (st : OptionState) : OptionState × Bool :=
  if st.i < vec.length then
    match vec[st.i]?, vec[u32 (st.i+1)]? with
    | some key, some value => (⟨u32 (st.i+2), setOption st.ep key value, st.outside⟩, true)
    | _, _ => ({st with outside := true}, false)
  else (st, false)

/-- `none` where the loop reads past the tokens or does not end. -/
def StringToEndpoint (str : List Byte) : Option MyEndpoint :=
  let vec := splitWords str
  match parseProtocol vec with
  | .error ep => some ep
  | .ok ep =>
    (execLoop (optionsBody vec) (vec.length+1) ⟨1,ep,false⟩).bind fun st =>
      if st.outside then none else some st.ep

def protocolText (protocol : UInt32) : List Byte :=
  if protocol = kTCP then tcp ++ [32]
  else if protocol = kUDP then udp ++ [32]
  else if protocol = kUNIX then unix ++ [32]
  else []

def EndpointToString (ep : MyEndpoint) : List Byte :=
  protocolText ep.protocol_ ++ [45,104,32] ++ ep.host_ ++ [32] ++ [45,112,32] ++ tostr ep.port_ ++
    [32] ++ [45,110,32] ++ ep.name_ ++ [32] ++ [45,116,32] ++ tostr ep.timeout_ ++ [32]

inductive Reads (vec : List (List Byte)) : ℕ → Prop
  | head (h : vec ≠ []) : Reads vec 0
  | key {ep : MyEndpoint} {st : OptionState} (hep : parseProtocol vec = .ok ep)
      (hst : Enters (optionsBody vec) ⟨1,ep,false⟩ st) (h : st.i < vec.length) : Reads vec st.i
  | value {ep : MyEndpoint} {st : OptionState} (hep : parseProtocol vec = .ok ep)
      (hst : Enters (optionsBody vec) ⟨1,ep,false⟩ st) (h : st.i < vec.length) :
      Reads vec (u32 (st.i+1))

def KnownProtocol (vec : List (List Byte)) : Prop :=
  ∃ word rest, vec = word :: rest ∧
    lower (trimToken word [32] (by decide)) ∈ [tcp, udp, unix]

variable {vec : List (List Byte)} {st st' : OptionState} {ep : MyEndpoint} {str : List Byte}

/-- The guard on the number of tokens refuses a protocol alone, and nothing else. -/
theorem parseProtocol_ok_iff :
    (∃ ep, parseProtocol vec = .ok ep) ↔ KnownProtocol vec ∧ vec.length ≠ 1 := by
  cases vec with
  | nil =>
    refine iff_of_false ?_ ?_
    · rintro ⟨ep, h⟩
      cases h
    · rintro ⟨⟨word, rest, h, -⟩, -⟩
      cases h
  | cons word rest =>
    have hlen : (word :: rest).length-1%2 = 0 ↔ (word :: rest).length = 1 := by
      rw [List.length_cons]
      omega
    have hknown : KnownProtocol (word :: rest) ↔
        lower (trimToken word [32] (by decide)) ∈ [tcp, udp, unix] := by
      constructor
      · rintro ⟨_, _, h, hmem⟩
        cases h
        exact hmem
      · exact fun hmem => ⟨word, rest, rfl, hmem⟩
    rw [hknown]
    simp only [parseProtocol, hlen, List.mem_cons, List.not_mem_nil, or_false]
    split_ifs <;> simp_all

theorem optionsBody_pair {key value : List Byte} {i : ℕ} (hi : i+1 < 2^32)
    (hkey : vec[i]? = some key) (hvalue : vec[i+1]? = some value) (ep : MyEndpoint) :
    optionsBody vec ⟨i,ep,false⟩ = (⟨u32 (i+2), setOption ep key value, false⟩, true) := by
  obtain ⟨hlt, -⟩ := List.getElem?_eq_some_iff.mp hkey
  rw [optionsBody, if_pos hlt]
  dsimp only
  rw [u32_of_lt hi, hkey, hvalue]

theorem optionsBody_true (h : optionsBody vec st = (st', true)) :
    st.i < vec.length ∧ u32 (st.i+1) < vec.length ∧ st'.i = u32 (st.i+2) := by
  unfold optionsBody at h
  split at h
  · next hlt =>
    split at h
    · next key value _ hvalue =>
      cases h
      obtain ⟨hlt', -⟩ := List.getElem?_eq_some_iff.mp hvalue
      exact ⟨hlt, hlt', rfl⟩
    · cases h
  · cases h

/-- The index is odd in every iteration, whether or not it wraps. -/
theorem odd_of_enters (h : Enters (optionsBody vec) ⟨1,ep,false⟩ st) :
    st.i%2 = 1 ∧ st.i < 2^32 := by
  induction h with
  | start => exact ⟨rfl, by dsimp only; omega⟩
  | again _ hb ih =>
    obtain ⟨-, -, hi⟩ := optionsBody_true hb
    rw [hi, u32]
    omega

/-- The loop comes to every odd index below the number of tokens. -/
theorem enters_odd (hlen : vec.length < 2^32) (ep : MyEndpoint) {k : ℕ}
    (hk : 2*k+1 ≤ vec.length) :
    ∃ ep', Enters (optionsBody vec) ⟨1,ep,false⟩ ⟨2*k+1,ep',false⟩ := by
  induction k with
  | zero => exact ⟨ep, .start⟩
  | succ k ih =>
    obtain ⟨ep', hep'⟩ := ih (by omega)
    have hkey : vec[2*k+1]? = some vec[2*k+1] := List.getElem?_eq_getElem _
    have hvalue : vec[2*k+1+1]? = some vec[2*k+1+1] := List.getElem?_eq_getElem _
    have hstep := optionsBody_pair (by omega) hkey hvalue ep'
    rw [u32_of_lt (by omega)] at hstep
    exact ⟨_, .again hep' hstep⟩

/-- The tokens are read inside their bounds exactly when they do not begin with a protocol, or
their number is odd, or too big for the index. -/
theorem reads_lt_iff (str : List Byte) :
    (∀ i, Reads (splitWords str) i → i < (splitWords str).length) ↔
      ¬ (KnownProtocol (splitWords str) ∧ (splitWords str).length%2 = 0 ∧
        (splitWords str).length < 2^32) := by
  generalize splitWords str = vec
  constructor
  · rintro h ⟨hknown, heven, hlen⟩
    obtain ⟨ep, hep⟩ := parseProtocol_ok_iff.mpr ⟨hknown, by omega⟩
    obtain ⟨word, rest, hvec, -⟩ := hknown
    have hpos : 0 < vec.length := by
      rw [hvec]
      exact Nat.succ_pos _
    obtain ⟨ep', hst⟩ := enters_odd hlen ep (k := vec.length/2-1) (by omega)
    have hread := h _ (.value hep hst (by dsimp only; omega))
    dsimp only at hread
    rw [u32_of_lt (by omega)] at hread
    omega
  · intro h i hi
    cases hi with
    | head hne => exact List.length_pos_of_ne_nil hne
    | key _ _ hlt => exact hlt
    | @value ep st hep hst hlt =>
      obtain ⟨hodd, h32⟩ := odd_of_enters hst
      have hknown := (parseProtocol_ok_iff.mp ⟨ep, hep⟩).1
      have hcount : vec.length%2 = 1 ∨ 2^32 ≤ vec.length := by
        by_contra hnot
        obtain ⟨h1, h2⟩ := not_or.mp hnot
        exact h ⟨hknown, by omega, by omega⟩
      rw [u32]
      omega

/-- With an option that has no value the token after the last one is read. -/
theorem not_reads_lt :
    splitWords [116,99,112,32,45,104] = [[116,99,112],[45,104]] ∧
      Reads (splitWords [116,99,112,32,45,104]) 2 ∧
      ¬ ∀ str i, Reads (splitWords str) i → i < (splitWords str).length := by
  have hwords : splitWords [116,99,112,32,45,104] = [[116,99,112],[45,104]] := by decide
  have hread : Reads (splitWords [116,99,112,32,45,104]) 2 := by
    rw [hwords]
    have hparse : parseProtocol [[116,99,112],[45,104]] = .ok {} := by decide
    exact .value hparse .start (by decide)
  refine ⟨hwords, hread, ?_⟩
  intro h
  have hlt := h _ 2 hread
  rw [hwords] at hlt
  exact absurd hlt (by decide)

def setOptions (ep : MyEndpoint) (options : List (List Byte × List Byte)) : MyEndpoint :=
  options.foldl (fun ep option => setOption ep option.1 option.2) ep

def optionTokens (options : List (List Byte × List Byte)) : List (List Byte) :=
  options.flatMap fun option => [option.1, option.2]

theorem optionTokens_cons (option : List Byte × List Byte)
    (options : List (List Byte × List Byte)) :
    optionTokens (option :: options) = option.1 :: option.2 :: optionTokens options := rfl

/-- The loop sets the options that it has not gone over yet. -/
theorem exits_options (hlen : vec.length < 2^32) (done : List (List Byte))
    (options : List (List Byte × List Byte)) (hvec : vec = done ++ optionTokens options)
    (ep : MyEndpoint) :
    Exits (optionsBody vec) ⟨done.length,ep,false⟩ ⟨vec.length,setOptions ep options,false⟩ := by
  induction options generalizing done ep with
  | nil =>
    have hdone : vec = done := by rw [hvec, optionTokens, List.flatMap_nil, List.append_nil]
    apply Exits.stop
    rw [optionsBody, hdone, if_neg (Nat.lt_irrefl _)]
    rfl
  | cons option options ih =>
    rw [optionTokens_cons] at hvec
    have hlen' : done.length+2 ≤ vec.length := by
      rw [hvec, List.length_append, List.length_cons, List.length_cons]
      omega
    have hkey : vec[done.length]? = some option.1 := by
      rw [hvec, List.getElem?_append_right le_rfl, Nat.sub_self]
      rfl
    have hvalue : vec[done.length+1]? = some option.2 := by
      rw [hvec, List.getElem?_append_right (Nat.le_succ _), show done.length+1-done.length = 1 by omega]
      rfl
    have hstep := optionsBody_pair (by omega) hkey hvalue ep
    rw [u32_of_lt (by omega)] at hstep
    have hrest := ih (done ++ [option.1, option.2]) (by rw [hvec, List.append_assoc]; rfl)
      (setOption ep option.1 option.2)
    rw [List.length_append] at hrest
    exact .again hstep hrest

/-- What is left of the tokens shrinks while the index does not wrap. -/
theorem left_lt_of_options (hlen : vec.length < 2^32) (h : optionsBody vec st = (st', true)) :
    vec.length-st'.i < vec.length-st.i := by
  obtain ⟨hlt, hlt', hi⟩ := optionsBody_true h
  rw [u32] at hlt' hi
  omega

theorem StringToEndpoint_of_options {word : List Byte} {options : List (List Byte × List Byte)}
    (hwords : splitWords str = word :: optionTokens options)
    (hlen : (splitWords str).length < 2^32) (hep : parseProtocol (splitWords str) = .ok ep) :
    StringToEndpoint str = some (setOptions ep options) := by
  have hexits := exits_options hlen [word] options hwords ep
  have hexec := (exits_iff_execLoop (n := (splitWords str).length+1)
    (fun st => (splitWords str).length-st.i) (fun _ _ h => left_lt_of_options hlen h)
    (by dsimp only; omega)).mp hexits
  rw [List.length_singleton] at hexec
  simp only [StringToEndpoint, hep, hexec]
  rfl

theorem trimToken_of_not_mem {c : Byte} (h : c ∉ str) :
    trimToken str [c] (List.cons_ne_nil c []) = str := by
  have htrim : trim str [c] = some str := by
    apply trim_of_not
    · exact fun hp => h (hp.subset (List.mem_singleton.mpr rfl))
    · exact fun hs => h (hs.subset (List.mem_singleton.mpr rfl))
  unfold trimToken
  simp only [htrim, Option.get_some]

theorem not_digit_space {n : ℕ} : (32:Byte) ∉ decimal n :=
  fun h => absurd (isDigit_of_mem_decimal h) (by decide)

theorem lower_decimal (n : ℕ) : lower (decimal n) = decimal n := by
  have hid : ∀ b ∈ decimal n, tolower b = id b := by
    intro b hb
    have hd := isDigit_iff.mp (isDigit_of_mem_decimal hb)
    rw [tolower, if_neg (by omega), id_eq]
  rw [lower, List.map_congr_left hid, List.map_id]

theorem strtoUnsigned_tostr {T : IntegralType} (hT : T.signed = false) (v : T.Value) :
    strtoUnsigned T hT (lower (trimToken (tostr v) [32] (by decide))) = v := by
  have h0 := MyCast.nonneg_of_holds hT v.holds
  have htext : DecimalText (decimal v.val.toNat) v.val := by
    have hplain := DecimalText.plain (decimal_ne_nil v.val.toNat) (fun _ => isDigit_of_mem_decimal)
    rwa [digitsValue_decimal, Int.toNat_of_nonneg h0] at hplain
  have hstrto := MyCast.strto_of_holds hT htext v.holds
  unfold strtoUnsigned
  simp only [tostr, trimToken_of_not_mem not_digit_space, lower_decimal, hstrto, Option.get_some]

def endpointOptions (ep : MyEndpoint) : List (List Byte × List Byte) :=
  [([45,104], ep.host_), ([45,112], tostr ep.port_), ([45,110], ep.name_),
    ([45,116], tostr ep.timeout_)]

theorem EndpointToString_eq {proto : List Byte} (ep : MyEndpoint)
    (hproto : protocolText ep.protocol_ = proto ++ [32]) :
    EndpointToString ep =
      [32].intercalate (proto :: optionTokens (endpointOptions ep) ++ [[]]) := by
  rw [EndpointToString, hproto]
  simp [endpointOptions, optionTokens]

/-- Words come back from the text in which a space follows each of them. -/
theorem splitWords_intercalate {words : List (List Byte)}
    (h : ∀ word ∈ words, word ≠ [] ∧ 32 ∉ word) :
    splitWords ([32].intercalate (words ++ [[]])) = words := by
  have hspace : ∀ word ∈ words ++ [[]], (32:Byte) ∉ word := by
    intro word hmem
    rcases List.mem_append.mp hmem with hmem | hmem
    · exact (h word hmem).2
    · rw [List.mem_singleton.mp hmem]
      exact List.not_mem_nil
  have hkept : words.filter (· ≠ []) = words :=
    List.filter_eq_self.mpr fun word hmem => decide_eq_true (h word hmem).1
  have hne : words ++ [[]] ≠ [] := List.append_ne_nil_of_right_ne_nil _ (List.cons_ne_nil _ _)
  unfold splitWords
  simp only [split_intercalate hne hspace, Option.get_some, List.filter_append, hkept]
  exact List.append_nil words

theorem isvalid_iff :
    ep.isvalid = true ↔
      ep.name_ ≠ [] ∧ (ep.protocol_ = kTCP ∨ ep.protocol_ = kUDP ∨ ep.protocol_ = kUNIX) := by
  have hprotocol : ¬ ep.protocol_ < kTCP ∧ ¬ kUNIX < ep.protocol_ ↔
      ep.protocol_ = kTCP ∨ ep.protocol_ = kUDP ∨ ep.protocol_ = kUNIX := by
    simp only [kTCP, kUDP, kUNIX, UInt32.lt_iff_toNat_lt, ← UInt32.toNat_inj, UInt32.reduceToNat]
    omega
  rw [← hprotocol, isvalid, Bool.not_eq_true', Bool.or_eq_false_iff, Bool.or_eq_false_iff,
    List.isEmpty_eq_false_iff, decide_eq_false_iff_not, decide_eq_false_iff_not, and_assoc]

/-- What the parser makes of a protocol that has a name. -/
theorem parseProtocol_cons {proto : List Byte} {protocol : UInt32} (rest : List (List Byte))
    (hprotocol : protocol = kTCP ∨ protocol = kUDP ∨ protocol = kUNIX)
    (hproto : protocolText protocol = proto ++ [32]) (hrest : rest ≠ []) :
    parseProtocol (proto :: rest) = .ok {protocol_ := protocol} ∧ proto ≠ [] ∧ 32 ∉ proto := by
  have hcount (word : List Byte) : ¬ (word :: rest).length-1%2 = 0 := by
    have hpos := List.length_pos_of_ne_nil hrest
    rw [List.length_cons]
    omega
  rcases hprotocol with rfl | rfl | rfl
  · obtain rfl : tcp = proto := List.append_cancel_right hproto
    have hlower : lower (trimToken tcp [32] (by decide)) = tcp := by decide
    refine ⟨?_, by decide, by decide⟩
    simp only [parseProtocol, hlower, if_neg (hcount tcp), if_true]
  · obtain rfl : udp = proto := List.append_cancel_right hproto
    have hlower : lower (trimToken udp [32] (by decide)) = udp := by decide
    have h1 : udp ≠ tcp := by decide
    refine ⟨?_, by decide, by decide⟩
    simp only [parseProtocol, hlower, if_neg h1, if_neg (hcount udp), if_true]
  · obtain rfl : unix = proto := List.append_cancel_right hproto
    have hlower : lower (trimToken unix [32] (by decide)) = unix := by decide
    have h1 : unix ≠ tcp := by decide
    have h2 : unix ≠ udp := by decide
    refine ⟨?_, by decide, by decide⟩
    simp only [parseProtocol, hlower, if_neg h1, if_neg h2, if_neg (hcount unix), if_true]

theorem setOption_h (ep : MyEndpoint) (value : List Byte) :
    setOption ep [45,104] value = {ep with host_ := lower (trimToken value [32] (by decide))} := rfl

theorem setOption_p (ep : MyEndpoint) (port : IntegralType.unsignedShort.Value) :
    setOption ep [45,112] (tostr port) = {ep with port_ := port} := by
  have hport : setOption ep [45,112] (tostr port) = {ep with
      port_ := strtoUnsigned .unsignedShort (by decide)
        (lower (trimToken (tostr port) [32] (by decide)))} :=
    rfl
  rw [hport, strtoUnsigned_tostr]

theorem setOption_n (ep : MyEndpoint) (value : List Byte) :
    setOption ep [45,110] value = {ep with name_ := trimToken value [32] (by decide)} := rfl

theorem setOption_t (ep : MyEndpoint) (timeout : IntegralType.unsignedInt.Value) :
    setOption ep [45,116] (tostr timeout) = {ep with timeout_ := timeout} := by
  have htimeout : setOption ep [45,116] (tostr timeout) = {ep with
      timeout_ := strtoUnsigned .unsignedInt (by decide)
        (lower (trimToken (tostr timeout) [32] (by decide)))} :=
    rfl
  rw [htimeout, strtoUnsigned_tostr]

/-- Setting the options of an endpoint sets its fields, the host in lower case. -/
theorem setOptions_endpointOptions (ep : MyEndpoint) (hhost : 32 ∉ ep.host_)
    (hname : 32 ∉ ep.name_) :
    setOptions {protocol_ := ep.protocol_} (endpointOptions ep) =
      {ep with host_ := lower ep.host_} := by
  simp only [setOptions, endpointOptions, List.foldl_cons, List.foldl_nil, setOption_h, setOption_p,
    setOption_n, setOption_t, trimToken_of_not_mem hhost, trimToken_of_not_mem hname]

/-- Except for the case of its letters the host comes back with everything else. -/
theorem StringToEndpoint_EndpointToString (ep : MyEndpoint) (hvalid : ep.isvalid = true)
    (hhost : ep.host_ ≠ []) (hhost32 : 32 ∉ ep.host_) (hname32 : 32 ∉ ep.name_) :
    StringToEndpoint (EndpointToString ep) = some {ep with host_ := lower ep.host_} := by
  obtain ⟨hname, hprotocol⟩ := isvalid_iff.mp hvalid
  obtain ⟨proto, hproto⟩ : ∃ proto, protocolText ep.protocol_ = proto ++ [32] := by
    rcases hprotocol with h | h | h <;> rw [h] <;> exact ⟨_, rfl⟩
  obtain ⟨hparse, hne, h32⟩ := parseProtocol_cons (optionTokens (endpointOptions ep)) hprotocol
    hproto (List.cons_ne_nil _ _)
  have hwords : splitWords (EndpointToString ep) =
      proto :: optionTokens (endpointOptions ep) := by
    rw [EndpointToString_eq ep hproto]
    apply splitWords_intercalate
    simp only [endpointOptions, optionTokens_cons, List.forall_mem_cons]
    exact ⟨⟨hne, h32⟩, by decide, ⟨hhost, hhost32⟩, by decide, ⟨decimal_ne_nil _, not_digit_space⟩,
      by decide, ⟨hname, hname32⟩, by decide, ⟨decimal_ne_nil _, not_digit_space⟩,
      fun _ h => absurd h List.not_mem_nil⟩
  rw [← setOptions_endpointOptions ep hhost32 hname32]
  apply StringToEndpoint_of_options hwords
  · rw [hwords]
    change 9 < 2^32
    decide
  · rw [hwords]
    exact hparse

def test_server : MyEndpoint where
  name_ := [116,101,115,116,95,115,101,114,118,101,114]
  host_ := [49,50,55,46,48,46,48,46,49]
  port_ := ⟨12345, by decide⟩

theorem roundTrip_test_server : StringToEndpoint (EndpointToString test_server) = some test_server := by
  have hlower : {test_server with host_ := lower test_server.host_} = test_server := by decide
  calc
    _ = some {test_server with host_ := lower test_server.host_} :=
      StringToEndpoint_EndpointToString test_server (by decide) (by decide) (by decide) (by decide)
    _ = some test_server := congrArg some hlower

/-- The host `A` comes back as `a`, and without a host the tokens are read past their end. -/
theorem not_roundTrip :
    let upper : MyEndpoint := {name_ := [110], host_ := [65]}
    let empty : MyEndpoint := {name_ := [110]}
    upper.isvalid = true ∧ StringToEndpoint (EndpointToString upper) ≠ some upper ∧
      empty.isvalid = true ∧ StringToEndpoint (EndpointToString empty) = none := by
  intro upper empty
  have hrun : StringToEndpoint (EndpointToString upper) = some {upper with host_ := [97]} := by
    decide +kernel
  have hempty : StringToEndpoint (EndpointToString empty) = none := by decide +kernel
  have hne : some {upper with host_ := [97]} ≠ some upper := by decide
  exact ⟨rfl, hrun ▸ hne, rfl, hempty⟩

end MyEndpointHelper
end EchoFrame
