import EchoFrame.ClientSessions
import EchoFrame.Verif.Run

/-! The proxies of a communicator and the clients they hold in the loops. The
hash of servant names is a parameter. -/
namespace EchoFrame
open Verif Std

def ClientConfig.endpoint (c : ClientConfig) : String × UInt16 := (c.host,c.port)

def MyClient.endpoint (c : MyClient) : String × UInt16 := c.config.endpoint

def uidOf (fd : UInt32) (servantId : UInt16) : UInt32 := (fd <<< 16) ||| servantId.toUInt32

/-- `loops` are the client maps of the loops, `proxyConfigs` what `update` saved,
`proxys` the proxies by name, each with its current configuration, and `tasks`
the proxies whose `initialize` was posted and has not run. -/
structure MyCommunicator where
  loops : ClientLoops
  proxyConfigs : ExtTreeMap String (List ClientConfig)
  proxys : ExtTreeMap String (List ClientConfig)
  tasks : List String

/-- The calls on a communicator, and the run of a posted task, with the
descriptors of the sockets that it opens. -/
inductive CommEvent
  | update (servantName : String) (config : List ClientConfig)
  | getServantProxy (servantName : String)
  | runTask (servantName : String) (fds : List UInt32)
deriving DecidableEq, Repr

namespace ServantProxy

variable (hash : String → UInt64)

def clientServantId (servantName : String) : UInt16 := (hash servantName%0xFFF).toUInt16

def initLoop (loops : ClientLoops) (servantName : String) : ℕ :=
  (hash servantName).toUInt32.toNat%loops.length

def findByEndpoint (loops : ClientLoops) (loop : ℕ) (endpoint : String × UInt16) :
    Option MyClient :=
  ((Shards.entries loops loop).find? fun entry => entry.2.endpoint = endpoint).map Prod.snd

def newClient (servantName : String) (fd : UInt32) (config : ClientConfig) : MyClient :=
  ⟨uidOf fd (clientServantId hash servantName),servantName,config,∅,[]⟩

def addClient (servantName : String) (loops : ClientLoops) (fd : UInt32)
    (config : ClientConfig) : ClientLoops :=
  let client := newClient hash servantName fd config
  loops.setClient client.uid client

def removeAbsent (servantName : String) (config : List ClientConfig) (loops : ClientLoops) :
    ClientLoops :=
  let loop := initLoop hash loops servantName
  let tmp := ((Shards.entries loops loop).map Prod.snd).filter fun c =>
    !config.any fun k => k.endpoint = c.endpoint
  (tmp.map MyClient.uid).foldl (fun loops uid => Shards.remove loops loop uid) loops

def addMissing (servantName : String) : List ClientConfig → List UInt32 → ClientLoops →
    Option ClientLoops
  | [], _, loops => some loops
  | it :: config, fds, loops =>
    -- a client of any servant will do
    if (findByEndpoint loops (initLoop hash loops servantName) it.endpoint).isSome then
      addMissing servantName config fds loops
    else match fds with
      | [] => none
      | fd :: fds => addMissing servantName config fds (addClient hash servantName loops fd it)

def initializeTask (servantName : String) (config : List ClientConfig) (fds : List UInt32)
    (loops : ClientLoops) : Option ClientLoops :=
  addMissing hash servantName config fds (removeAbsent hash servantName config loops)

end ServantProxy

namespace MyCommunicator

variable (hash : String → UInt64)

def init (n : ℕ) : MyCommunicator := ⟨.empty n,∅,∅,[]⟩

/-- `update` of the proxy: the configuration changes at once, the clients later. -/
def updateProxy (s : MyCommunicator) (servantName : String) (config : List ClientConfig) :
    MyCommunicator :=
  { s with proxys := s.proxys.insert servantName config, tasks := s.tasks ++ [servantName] }

def update (s : MyCommunicator) (servantName : String) (config : List ClientConfig) :
    MyCommunicator :=
  let s := { s with proxyConfigs := s.proxyConfigs.insert servantName config }
  match s.proxys[servantName]? with
  | none => s
  | some _ => s.updateProxy servantName config

def getServantProxy (s : MyCommunicator) (servantName : String) : MyCommunicator :=
  match s.proxys[servantName]? with
  | some _ => s
  | none => match s.proxyConfigs[servantName]? with
    | none => s
    | some config => s.updateProxy servantName config

/-- A posted task reads the configuration that its proxy has by then. -/
def runTask (s : MyCommunicator) (servantName : String) (fds : List UInt32) :
    Option MyCommunicator := do
  if servantName ∈ s.tasks then
    let config ← s.proxys[servantName]?
    let loops ← ServantProxy.initializeTask hash servantName config fds s.loops
    some { s with loops := loops, tasks := s.tasks.erase servantName }
  else none

def step (s : MyCommunicator) : CommEvent → Option MyCommunicator
  | .update servantName config => some (s.update servantName config)
  | .getServantProxy servantName => some (s.getServantProxy servantName)
  | .runTask servantName fds => s.runTask hash servantName fds

end MyCommunicator

/-- The low half of a uid is the servant id, the high half what is left of the descriptor. -/
theorem toNat_uidOf (fd : UInt32) (servantId : UInt16) :
    (uidOf fd servantId).toNat = fd.toNat%2^16*2^16+servantId.toNat := by
  have hs := servantId.toNat_lt
  have hlow : fd.toNat*2^16%2^32 = fd.toNat%2^16*2^16 := by omega
  calc (uidOf fd servantId).toNat
      = fd.toNat <<< 16%2^32 ||| servantId.toNat := by
        rw [uidOf, UInt32.toNat_or, UInt32.toNat_shiftLeft, UInt16.toNat_toUInt32]
        rfl
    _ = (fd.toNat%2^16) <<< 16 ||| servantId.toNat := by
        rw [Nat.shiftLeft_eq, hlow, Nat.shiftLeft_eq]
    _ = fd.toNat%2^16*2^16+servantId.toNat := by
        rw [← Nat.shiftLeft_add_eq_or_of_lt hs, Nat.shiftLeft_eq]

theorem uidOf_and (fd : UInt32) (servantId : UInt16) :
    uidOf fd servantId &&& 0xFFFF = servantId.toUInt32 := by
  have hs := servantId.toNat_lt
  apply UInt32.toNat_inj.mp
  calc (uidOf fd servantId &&& 0xFFFF).toNat
      = (uidOf fd servantId).toNat &&& 2^16-1 := UInt32.toNat_and ..
    _ = (fd.toNat%2^16*2^16+servantId.toNat)%2^16 := by
        rw [Nat.and_two_pow_sub_one_eq_mod, toNat_uidOf]
    _ = servantId.toUInt32.toNat := by
        rw [UInt16.toNat_toUInt32]
        omega

theorem isSome_findByEndpoint_iff {loops : ClientLoops} {loop : ℕ} {endpoint : String × UInt16} :
    (ServantProxy.findByEndpoint loops loop endpoint).isSome ↔
      ∃ uid c, Shards.get? loops loop uid = some c ∧ c.endpoint = endpoint := by
  rw [ServantProxy.findByEndpoint, Option.isSome_map, List.find?_isSome]
  simp only [Prod.exists, Shards.mem_entries, decide_eq_true_eq]

end EchoFrame
