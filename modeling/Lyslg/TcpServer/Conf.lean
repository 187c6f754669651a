import Lyslg.Http.ParamSegments
import Lyslg.YAML.Flow
/-!
# Server definitions as text

`LexicalCast` of `tcp_server.h` writes every member but an address list without entries.  The
arguments are written as a map and read as a string.
-/

namespace Lyslg

open Http Support YAML Node

/-! ## Maps of strings -/

theorem lexLess_weak : OrderedMap.StrictWeak lexLess where
  irrefl := lexLess_irrefl
  trans := lexLess_trans
  congr := by
    intro a b hsame c
    rw [OrderedMap.same, Bool.and_eq_true, Bool.not_eq_true', Bool.not_eq_true'] at hsame
    rw [eq_of_not_lexLess hsame.1 hsame.2]
    exact ⟨rfl, rfl⟩

/-- A `std::map<std::string, std::string>`. -/
structure StringMap where
  entries : List (List UInt8 × List UInt8)
  sorted : OrderedMap.Sorted lexLess entries

namespace StringMap

def empty : StringMap := ⟨[], List.Pairwise.nil⟩

def insert (m : StringMap) (key val : List UInt8) : StringMap :=
  ⟨OrderedMap.insert lexLess m.entries key val, m.sorted.insert lexLess_weak⟩

/-- Each entry with its value loaded. -/
def loadValues (yaml : Library) :
    List (List UInt8 × List UInt8) → Option (List (List UInt8 × Node))
  | [] => some []
  | i :: rest => do
      let node ← yaml.load i.2
      let entries ← loadValues yaml rest
      return (i.1, node) :: entries

/-- `LexicalCast<std::map<std::string, std::string>, std::string>` -/
def toText (yaml : Library) (v : StringMap) : Option (List UInt8) := do
  let entries ← loadValues yaml v.entries
  return yaml.emit (.map entries)

/-- `LexicalCast<std::string, std::map<std::string, std::string>>` -/
def ofText (yaml : Library) (v : List UInt8) : Option StringMap := do
  let node ← yaml.load v
  let entries ← node.entries
  return entries.foldl (fun vec it => vec.insert it.1 (yaml.emit it.2)) empty

end StringMap

/-! ## The definition -/

structure TcpServerConf where
  address : List (List UInt8) := []
  keepalive : Int32 := 0
  timeout : Int32 := 1000 * 2 * 60
  ssl : Int32 := 0
  id : List UInt8 := []
  /-- `http`, `ws` or `rock` -/
  type : List UInt8 := chars "http"
  name : List UInt8 := []
  certFile : List UInt8 := []
  keyFile : List UInt8 := []
  acceptWorker : List UInt8 := []
  ioWorker : List UInt8 := []
  processWorker : List UInt8 := []
  args : StringMap := .empty

namespace TcpServerConf

/-- `TcpServerConf::operator==` -/
instance : BEq TcpServerConf where
  beq conf oth := conf.address == oth.address
    && conf.keepalive == oth.keepalive
    && conf.timeout == oth.timeout
    && conf.name == oth.name
    && conf.ssl == oth.ssl
    && conf.certFile == oth.certFile
    && conf.keyFile == oth.keyFile
    && conf.acceptWorker == oth.acceptWorker
    && conf.ioWorker == oth.ioWorker
    && conf.processWorker == oth.processWorker
    && conf.args.entries == oth.args.entries
    && conf.id == oth.id
    && conf.type == oth.type

/-- The members that are written, with the node `args`. -/
def fields (conf : TcpServerConf) (yaml : Library) (args : Node) :
    List (List UInt8 × Option Node) :=
  [(chars "id", some (.scalar conf.id)),
    (chars "type", some (.scalar conf.type)),
    (chars "name", some (.scalar conf.name)),
    (chars "keepalive", some (.scalar (yaml.encodeInt conf.keepalive))),
    (chars "timeout", some (.scalar (yaml.encodeInt conf.timeout))),
    (chars "ssl", some (.scalar (yaml.encodeInt conf.ssl))),
    (chars "cert_file", some (.scalar conf.certFile)),
    (chars "key_file", some (.scalar conf.keyFile)),
    (chars "accept_worker", some (.scalar conf.acceptWorker)),
    (chars "io_worker", some (.scalar conf.ioWorker)),
    (chars "process_worker", some (.scalar conf.processWorker)),
    (chars "args", some args),
    (chars "address",
      if conf.address ≠ [] then some (.sequence (conf.address.map .scalar)) else none)]

def toNode (conf : TcpServerConf) (yaml : Library) (args : Node) : Node :=
  .ofFields (conf.fields yaml args)

/-- `LexicalCast<TcpServerConf, std::string>` -/
def toText (yaml : Library) (conf : TcpServerConf) : Option (List UInt8) := do
  let args ← conf.args.toText yaml
  let args ← yaml.load args
  return yaml.emit (conf.toNode yaml args)

/-- The strings that the loop over the addresses appends. -/
def addressOf (yaml : Library) : List (Option Node) → Option (List (List UInt8))
  | [] => some []
  | node :: rest => do
      let i ← asString yaml node
      let address ← addressOf yaml rest
      return i :: address

def ofNode (yaml : Library) (node : Node) : Option TcpServerConf := do
  let conf : TcpServerConf := {}
  let id ← member (some node) (chars "id")
  let type ← member (some node) (chars "type")
  let keepalive ← member (some node) (chars "keepalive")
  let timeout ← member (some node) (chars "timeout")
  let name ← member (some node) (chars "name")
  let ssl ← member (some node) (chars "ssl")
  let certFile ← member (some node) (chars "cert_file")
  let keyFile ← member (some node) (chars "key_file")
  let acceptWorker ← member (some node) (chars "accept_worker")
  let acceptWorker ← asString yaml acceptWorker
  let ioWorker ← member (some node) (chars "io_worker")
  let ioWorker ← asString yaml ioWorker
  let processWorker ← member (some node) (chars "process_worker")
  let processWorker ← asString yaml processWorker
  let args ← member (some node) (chars "args")
  let args ← StringMap.ofText yaml (asStringOr yaml [] args)
  let address ← member (some node) (chars "address")
  let address ← addressOf yaml ((address.map fun node => node.items yaml).getD [])
  return {
    id := asStringOr yaml conf.id id
    type := asStringOr yaml conf.type type
    keepalive := asIntOr yaml conf.keepalive keepalive
    timeout := asIntOr yaml conf.timeout timeout
    name := asStringOr yaml conf.name name
    ssl := asIntOr yaml conf.ssl ssl
    certFile := asStringOr yaml conf.certFile certFile
    keyFile := asStringOr yaml conf.keyFile keyFile
    acceptWorker := acceptWorker
    ioWorker := ioWorker
    processWorker := processWorker
    args := args
    address := address }

/-- `LexicalCast<std::string, TcpServerConf>` -/
def ofText (yaml : Library) (v : List UInt8) : Option TcpServerConf :=
  (yaml.load v).bind (ofNode yaml)

/-- The definition comes back from its text, by the comparison of the sources. -/
def Survives (yaml : Library) (conf : TcpServerConf) : Prop :=
  ∃ conf', (conf.toText yaml).bind (ofText yaml) = some conf' ∧ (conf' == conf) = true

variable {yaml : Library} {conf oth : TcpServerConf} {args : Node}

theorem beq_iff : (conf == oth) = true ↔ conf = oth := by
  have hbeq : (conf == oth) = (conf.address == oth.address && conf.keepalive == oth.keepalive
      && conf.timeout == oth.timeout && conf.name == oth.name && conf.ssl == oth.ssl
      && conf.certFile == oth.certFile && conf.keyFile == oth.keyFile
      && conf.acceptWorker == oth.acceptWorker && conf.ioWorker == oth.ioWorker
      && conf.processWorker == oth.processWorker && conf.args.entries == oth.args.entries
      && conf.id == oth.id && conf.type == oth.type) := rfl
  rw [hbeq]
  simp only [Bool.and_eq_true, beq_iff_eq]
  constructor
  · rintro ⟨⟨⟨⟨⟨⟨⟨⟨⟨⟨⟨⟨haddress, hkeepalive⟩, htimeout⟩, hname⟩, hssl⟩, hcert⟩, hkey⟩, haccept⟩,
      hio⟩,
      hprocess⟩, hargs⟩, hid⟩, htype⟩
    obtain ⟨_, _, _, _, _, _, _, _, _, _, _, _, ⟨_, _⟩⟩ := conf
    obtain ⟨_, _, _, _, _, _, _, _, _, _, _, _, ⟨_, _⟩⟩ := oth
    subst haddress hkeepalive htimeout hname hssl hcert hkey haccept hio hprocess hargs hid htype
    rfl
  · rintro rfl
    simp

/-- The names of the members are different. -/
theorem keys_nodup : ((conf.fields yaml args).map Prod.fst).Nodup := by
  have hkeys : [chars "id", chars "type", chars "name", chars "keepalive", chars "timeout",
      chars "ssl", chars "cert_file", chars "key_file", chars "accept_worker", chars "io_worker",
      chars "process_worker", chars "args", chars "address"].Nodup := by
    decide +kernel
  exact hkeys

theorem member_field {key : List UInt8} {value : Option Node} (i : Nat)
    (h : (conf.fields yaml args)[i]? = some (key, value)) :
    member (some (conf.toNode yaml args)) key = some value :=
  member_ofFields keys_nodup (List.mem_of_getElem? h)

theorem addressOf_scalars (address : List (List UInt8)) :
    addressOf yaml ((address.map Node.scalar).map some) = some address := by
  induction address with
  | nil => rfl
  | cons i rest ih =>
      rw [List.map_cons, List.map_cons, addressOf, ih]
      rfl

/-- A definition that was written is read without its arguments. -/
theorem ofNode_toNode (hnil : yaml.load [] = some .null)
    (hint : ∀ v, yaml.decodeInt (yaml.encodeInt v) = some v)
    (entries : List (List UInt8 × Node)) :
    ofNode yaml (conf.toNode yaml (.map entries)) = some { conf with args := .empty } := by
  have hargs : StringMap.ofText yaml [] = some .empty := by
    rw [StringMap.ofText, hnil]
    rfl
  have hitems : addressOf yaml (((if conf.address ≠ [] then
      some (Node.sequence (conf.address.map .scalar)) else none).map
        fun node => node.items yaml).getD []) = some conf.address := by
    by_cases haddress : conf.address = []
    · rw [if_neg (not_not_intro haddress), haddress]
      rfl
    · rw [if_pos haddress, Option.map_some, items_sequence, Option.getD_some, addressOf_scalars]
  rw [ofNode, member_field 0 rfl, member_field 1 rfl, member_field 3 rfl, member_field 4 rfl,
    member_field 2 rfl, member_field 5 rfl, member_field 6 rfl, member_field 7 rfl,
    member_field 8 rfl, member_field 9 rfl, member_field 10 rfl, member_field 11 rfl,
    member_field 12 rfl]
  change (StringMap.ofText yaml []).bind _ = _
  rw [hargs]
  change (addressOf yaml ((Option.map _ _).getD [])).bind _ = _
  rw [hitems]
  change some _ = _
  simp only [asIntOr, hint, Option.getD_some]
  rfl

/-- What is read back, if the encoder does not throw. -/
theorem ofText_toText (hload : ∀ n, yaml.load (yaml.emit n) = some n)
    (hnil : yaml.load [] = some .null) (hint : ∀ v, yaml.decodeInt (yaml.encodeInt v) = some v)
    {text : List UInt8} (htext : conf.toText yaml = some text) :
    ofText yaml text = some { conf with args := .empty } := by
  obtain ⟨args, hargs, hrest⟩ := Option.bind_eq_some_iff.mp htext
  obtain ⟨entries, _, hemit⟩ := Option.bind_eq_some_iff.mp hargs
  obtain rfl := Option.some.inj hemit
  rw [hload] at hrest
  obtain rfl := Option.some.inj hrest
  rw [ofText, hload]
  exact ofNode_toNode hnil hint entries

/-- The arguments do not come back. -/
theorem Survives.args_eq (h : conf.Survives yaml)
    (hload : ∀ n, yaml.load (yaml.emit n) = some n) (hnil : yaml.load [] = some .null)
    (hint : ∀ v, yaml.decodeInt (yaml.encodeInt v) = some v) : conf.args = .empty := by
  obtain ⟨conf', hbind, heq⟩ := h
  obtain ⟨text, htext, hread⟩ := Option.bind_eq_some_iff.mp hbind
  rw [ofText_toText hload hnil hint htext] at hread
  obtain rfl := Option.some.inj hread
  exact (congrArg TcpServerConf.args (beq_iff.mp heq)).symm

/-- Without arguments the encoder does not throw. -/
theorem toText_eq (hload : ∀ n, yaml.load (yaml.emit n) = some n) (hargs : conf.args = .empty) :
    conf.toText yaml = some (yaml.emit (conf.toNode yaml (.map []))) := by
  rw [toText, hargs]
  change (yaml.load (yaml.emit (.map []))).bind _ = _
  rw [hload]
  rfl

end TcpServerConf

open TcpServerConf

/-- The definition comes back exactly if it has no arguments. -/
theorem tcpServerConf_survives_iff {yaml : Library} (hload : ∀ n, yaml.load (yaml.emit n) = some n)
    (hnil : yaml.load [] = some .null) (hint : ∀ v, yaml.decodeInt (yaml.encodeInt v) = some v)
    (conf : TcpServerConf) : conf.Survives yaml ↔ conf.args.entries = [] := by
  constructor
  · intro h
    rw [h.args_eq hload hnil hint]
    rfl
  · intro hentries
    have hargs : conf.args = .empty := by
      obtain ⟨_, _, _, _, _, _, _, _, _, _, _, _, ⟨entries, _⟩⟩ := conf
      subst hentries
      rfl
    have htext := toText_eq hload hargs
    refine ⟨conf, ?_, beq_iff.mpr rfl⟩
    rw [htext, Option.bind_some, ofText_toText hload hnil hint htext, ← hargs]

/-- The first server of `server.yml`. -/
def httpConf : TcpServerConf where
  address := [chars "0.0.0.0:8090", chars "127.0.0.1:8091"]
  keepalive := 1
  timeout := 1000
  name := chars "lyslg/1.1"
  acceptWorker := chars "accept"
  ioWorker := chars "io"
  processWorker := chars "io"

/-- The text of the server, with that of its arguments. -/
def httpText (args : List UInt8) : List UInt8 :=
  chars "id: \"\"\ntype: http\nname: lyslg/1.1\nkeepalive: 1\ntimeout: 1000\nssl: 0\n" ++
    chars "cert_file: \"\"\nkey_file: \"\"\naccept_worker: accept\nio_worker: io\n" ++
    chars "process_worker: io\nargs:" ++ args ++
    chars "\naddress:\n  - 0.0.0.0:8090\n  - 127.0.0.1:8091"

def httpYaml : Library :=
  Flow.library [(httpConf.toNode (Flow.library []) (.map []), httpText (chars " {}"))]

theorem httpYaml_load_emit (n : Node) : httpYaml.load (httpYaml.emit n) = some n := by
  have hnodup : [httpText (chars " {}")].Nodup := List.nodup_singleton _
  have hplain : ∀ text ∈ [httpText (chars " {}")], Flow.isPlain text = true := by decide +kernel
  apply Flow.library_load_emit
  · exact hnodup
  · exact hplain

theorem tcpServerConf_survives_http : httpConf.Survives httpYaml ↔ httpConf.args.entries = [] :=
  tcpServerConf_survives_iff httpYaml_load_emit (Flow.library_load_nil (by decide +kernel))
    Flow.decodeInt_intText httpConf

/-- The same server with one argument. -/
def argsConf : TcpServerConf :=
  { httpConf with args := StringMap.empty.insert (chars "a") (chars "b") }

def argsNode : Node := .map [(chars "a", .scalar (chars "b"))]

def argsYaml : Library :=
  Flow.library [(.scalar (chars "b"), chars "b"), (argsNode, chars "a: b"),
    (argsConf.toNode (Flow.library []) argsNode, httpText (chars "\n  a: b"))]

theorem argsYaml_load_emit (n : Node) : argsYaml.load (argsYaml.emit n) = some n := by
  have hnodup : [chars "b", chars "a: b", httpText (chars "\n  a: b")].Nodup := by decide +kernel
  have hplain : ∀ text ∈ [chars "b", chars "a: b", httpText (chars "\n  a: b")],
      Flow.isPlain text = true := by
    decide +kernel
  apply Flow.library_load_emit
  · exact hnodup
  · exact hplain

/-- Its argument is lost. -/
theorem tcpServerConf_loses_args :
    (∀ n, argsYaml.load (argsYaml.emit n) = some n) ∧ argsYaml.load [] = some .null ∧
      (∀ v, argsYaml.decodeInt (argsYaml.encodeInt v) = some v) ∧ ¬ argsConf.Survives argsYaml := by
  have hnil : argsYaml.load [] = some .null := Flow.library_load_nil (by decide +kernel)
  refine ⟨argsYaml_load_emit, hnil, Flow.decodeInt_intText, ?_⟩
  intro h
  have hargs := h.args_eq argsYaml_load_emit hnil Flow.decodeInt_intText
  have hlength := congrArg (fun args => args.entries.length) hargs
  revert hlength
  decide

end Lyslg
