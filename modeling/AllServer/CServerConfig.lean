import AllServer.Util.CString
import AllServer.Util.Fill

/-!
# The server configuration

`Init` goes over the servers in the document and enters each of them into two
tables, one by its id and one by its name. Both are tables of the same servers,
with the values that the document has, exactly if no two servers have the same
id and the values fit the fields that they are assigned to: the id and the
number of connections are not negative, the port has 16 bits, and there is no
NUL in the strings (`CServerConfig.indexes_agree_iff`).
-/

/-- **A JSON value**, as far as `Init` looks into it. -/
inductive JsonValue where
  | object (members : List (List UInt8 × JsonValue))
  | string (s : List UInt8)
  | int (n : Int32)
  | other

namespace JsonValue

/-- `operator[]`: the first member of that name. -/
def get (name : List UInt8) : JsonValue → Option JsonValue
  | object members => (members.find? (fun m => m.1 = name)).map Prod.snd
  | _ => none

/-- `GetInt`. -/
def GetInt : JsonValue → Option Int32
  | int n => some n
  | _ => none

/-- `GetString`, which ends in a NUL behind the bytes of the string. -/
def GetString : JsonValue → Option (List UInt8)
  | string s => some s
  | _ => none

end JsonValue

/-- `ServerConfigInfo`. -/
structure ServerConfigInfo where
  ServerId : UInt32 := 0
  Prot : UInt16 := 0
  MaxConct : UInt32 := 0
  ServerName : List UInt8 := []
  Ip : List UInt8 := []

/-- **The tables of the configuration.** -/
structure CServerConfig where
  m_ServerConfigInfo : UInt32 → Option ServerConfigInfo
  m_strServerConfigInfo : List UInt8 → Option ServerConfigInfo

namespace CServerConfig

/-- The tables before `Init`. -/
def new : CServerConfig := ⟨fun _ => none, fun _ => none⟩

/-- What `Init` does about one member of the root. It has no result where rapidjson
asserts. -/
def Init.enter (DocRoot : JsonValue) (s : CServerConfig) (name : List UInt8) :
    Option CServerConfig := do
  let V ← DocRoot.get name
  let ServerId := (← (← V.get (ascii "ServerId")).GetInt).toUInt32
  let ServerName := cstr (← (← V.get (ascii "ServerName")).GetString)
  let Ip := cstr (← (← V.get (ascii "Ip")).GetString)
  let Prot := (← (← V.get (ascii "Prot")).GetInt).toUInt32.toUInt16
  let MaxConct := (← (← V.get (ascii "MaxConct")).GetInt).toUInt32
  let ConfigInfo : ServerConfigInfo := { ServerId, Prot, MaxConct, ServerName, Ip }
  return {
    m_ServerConfigInfo := Function.update s.m_ServerConfigInfo ServerId (some ConfigInfo)
    m_strServerConfigInfo := Function.update s.m_strServerConfigInfo ServerName (some ConfigInfo) }

/-- `CServerConfig::Init`, from the document on. -/
def Init (document : JsonValue) (s : CServerConfig) : Option CServerConfig := do
  let DocRoot ← document.get (ascii "root")
  match DocRoot with
  | .object members => members.foldlM (fun s m => Init.enter DocRoot s m.1) s
  | _ => return s

/-- `CServerConfig::GetServerInfoByServerId`. -/
def GetServerInfoByServerId (nId : UInt32) (s : CServerConfig) : ServerConfigInfo :=
  (s.m_ServerConfigInfo nId).getD {}

/-- `CServerConfig::GetServerInfoByServerName`. -/
def GetServerInfoByServerName (ServrName : List UInt8) (s : CServerConfig) : ServerConfigInfo :=
  (s.m_strServerConfigInfo ServrName).getD {}

end CServerConfig

/-! ## The servers of a document -/

/-- **A server as it stands in the document.** -/
structure ServerEntry where
  ServerName : List UInt8
  ServerId : Int32
  Ip : List UInt8
  Prot : Int32
  MaxConct : Int32

namespace ServerEntry

/-- What `Init` makes of a server. -/
def info (e : ServerEntry) : ServerConfigInfo where
  ServerId := e.ServerId.toUInt32
  Prot := e.Prot.toUInt32.toUInt16
  MaxConct := e.MaxConct.toUInt32
  ServerName := cstr e.ServerName
  Ip := cstr e.Ip

/-- **The values of the server, unchanged.** -/
structure Same (e : ServerEntry) (c : ServerConfigInfo) : Prop where
  ServerId : (c.ServerId.toNat : ℤ) = e.ServerId.toInt
  Prot : (c.Prot.toNat : ℤ) = e.Prot.toInt
  MaxConct : (c.MaxConct.toNat : ℤ) = e.MaxConct.toInt
  ServerName : c.ServerName = e.ServerName
  Ip : c.Ip = e.Ip

/-- **The values fit the fields** that they are assigned to. -/
structure Fits (e : ServerEntry) : Prop where
  ServerId : 0 ≤ e.ServerId.toInt
  Prot : 0 ≤ e.Prot.toInt ∧ e.Prot.toInt < 2 ^ 16
  MaxConct : 0 ≤ e.MaxConct.toInt
  ServerName : NulFree e.ServerName
  Ip : NulFree e.Ip

/-- **The member of the root is this server**: it has the members that `Init` asks
for, of the right types. -/
structure WellTyped (V : JsonValue) (e : ServerEntry) : Prop where
  ServerId : (V.get (ascii "ServerId")).bind JsonValue.GetInt = some e.ServerId
  Prot : (V.get (ascii "Prot")).bind JsonValue.GetInt = some e.Prot
  MaxConct : (V.get (ascii "MaxConct")).bind JsonValue.GetInt = some e.MaxConct
  ServerName : (V.get (ascii "ServerName")).bind JsonValue.GetString = some e.ServerName
  Ip : (V.get (ascii "Ip")).bind JsonValue.GetString = some e.Ip

end ServerEntry

/-- **A configuration document**: the root is an object, its members have different
names and are servers, which have different names. -/
structure ConfigDocument (document : JsonValue) (entries : List ServerEntry) : Prop where
  root : ∃ members, document.get (ascii "root") = some (.object members)
    ∧ (members.map Prod.fst).Nodup
    ∧ List.Forall₂ (fun m e => ServerEntry.WellTyped m.2 e) members entries
  ServerName : (entries.map ServerEntry.ServerName).Nodup

namespace ServerEntry

variable {e : ServerEntry}

/-- **An `int` is kept in a `UINT32`** if it is not negative. -/
theorem toNat_toUInt32_iff (n : Int32) : (n.toUInt32.toNat : ℤ) = n.toInt ↔ 0 ≤ n.toInt := by
  have hcond := BitVec.toInt_eq_toNat_cond n.toBitVec
  have hlt := n.toBitVec.isLt
  have hnat : n.toUInt32.toNat = n.toBitVec.toNat := rfl
  have hint : n.toInt = n.toBitVec.toInt := rfl
  rw [hnat, hint, hcond]
  split_ifs <;> omega

/-- It is kept in a `UINT16` if it has 16 bits. -/
theorem toNat_toUInt16_iff (n : Int32) :
    (n.toUInt32.toUInt16.toNat : ℤ) = n.toInt ↔ 0 ≤ n.toInt ∧ n.toInt < 2 ^ 16 := by
  have hcond := BitVec.toInt_eq_toNat_cond n.toBitVec
  have hlt := n.toBitVec.isLt
  have hnat : n.toUInt32.toUInt16.toNat = n.toBitVec.toNat % 2 ^ 16 := rfl
  have hint : n.toInt = n.toBitVec.toInt := rfl
  rw [hnat, hint, hcond]
  split_ifs <;> omega

/-- A string is kept up to its first NUL. -/
theorem cstr_eq_self_iff (s : List UInt8) : cstr s = s ↔ NulFree s :=
  ⟨fun h => h ▸ nulFree_cstr s, cstr_of_nulFree⟩

/-- **The values are unchanged** exactly if they fit. -/
theorem same_info_iff : e.Same e.info ↔ e.Fits := by
  constructor
  · intro h
    exact ⟨(toNat_toUInt32_iff _).mp h.ServerId, (toNat_toUInt16_iff _).mp h.Prot,
      (toNat_toUInt32_iff _).mp h.MaxConct, (cstr_eq_self_iff _).mp h.ServerName,
      (cstr_eq_self_iff _).mp h.Ip⟩
  · intro h
    exact ⟨(toNat_toUInt32_iff _).mpr h.ServerId, (toNat_toUInt16_iff _).mpr h.Prot,
      (toNat_toUInt32_iff _).mpr h.MaxConct, (cstr_eq_self_iff _).mpr h.ServerName,
      (cstr_eq_self_iff _).mpr h.Ip⟩

end ServerEntry

namespace CServerConfig

variable {document DocRoot V : JsonValue} {entries : List ServerEntry} {e : ServerEntry}
variable {s : CServerConfig}

/-- **A server is entered into both tables.** -/
theorem Init.enter_eq {name : List UInt8} (hget : DocRoot.get name = some V) (he : e.WellTyped V)
    (s : CServerConfig) : Init.enter DocRoot s name = some
      ⟨Function.update s.m_ServerConfigInfo e.info.ServerId (some e.info),
        Function.update s.m_strServerConfigInfo e.info.ServerName (some e.info)⟩ := by
  obtain ⟨v₁, hv₁, hn₁⟩ := Option.bind_eq_some_iff.mp he.ServerId
  obtain ⟨v₂, hv₂, hn₂⟩ := Option.bind_eq_some_iff.mp he.Prot
  obtain ⟨v₃, hv₃, hn₃⟩ := Option.bind_eq_some_iff.mp he.MaxConct
  obtain ⟨v₄, hv₄, hn₄⟩ := Option.bind_eq_some_iff.mp he.ServerName
  obtain ⟨v₅, hv₅, hn₅⟩ := Option.bind_eq_some_iff.mp he.Ip
  simp only [Init.enter, Option.bind_eq_bind, Option.bind_some, Option.pure_def, hget, hv₁, hn₁,
    hv₂, hn₂, hv₃, hn₃, hv₄, hn₄, hv₅, hn₅]
  rfl

/-- **`Init` fills both tables** with the servers of the document. -/
theorem Init_eq (hdoc : ConfigDocument document entries) (s : CServerConfig) :
    Init document s = some
      ⟨fill (fun e => e.info.ServerId) ServerEntry.info entries s.m_ServerConfigInfo,
        fill (fun e => e.info.ServerName) ServerEntry.info entries s.m_strServerConfigInfo⟩ := by
  obtain ⟨members, hroot, hnodup, htyped⟩ := hdoc.root
  have hget : ∀ m ∈ members, (JsonValue.object members).get m.1 = some m.2 := fun m hm => by
    rw [JsonValue.get, find?_of_nodup hnodup hm]
    rfl
  have hloop : members.foldlM (fun s m => Init.enter (.object members) s m.1) s = some
      ⟨fill (fun e => e.info.ServerId) ServerEntry.info entries s.m_ServerConfigInfo,
        fill (fun e => e.info.ServerName) ServerEntry.info entries s.m_strServerConfigInfo⟩ := by
    generalize JsonValue.object members = DocRoot at hget
    clear hroot hnodup hdoc
    induction htyped generalizing s with
    | nil => rfl
    | cons he _ ih =>
      obtain ⟨hfirst, hrest⟩ := List.forall_mem_cons.mp hget
      rw [List.foldlM_cons, Init.enter_eq hfirst he]
      exact ih _ hrest
  unfold Init
  rw [hroot]
  exact hloop

/-- **A server is in both indexes**, unchanged. -/
structure Indexes (s : CServerConfig) (e : ServerEntry) : Prop where
  found : (s.m_strServerConfigInfo e.ServerName).isSome
    ∧ (s.m_ServerConfigInfo e.ServerId.toUInt32).isSome
  same : e.Same (s.GetServerInfoByServerName e.ServerName)
  agree : s.GetServerInfoByServerId e.ServerId.toUInt32
    = s.GetServerInfoByServerName e.ServerName

/-- **A server that is found by its name** is in both indexes exactly if it is
found by its id as well, and its values fit. -/
theorem indexes_iff (hname : s.m_strServerConfigInfo e.ServerName = some e.info) :
    s.Indexes e ↔ s.m_ServerConfigInfo e.ServerId.toUInt32 = some e.info ∧ e.Fits := by
  have hbyName : s.GetServerInfoByServerName e.ServerName = e.info := by
    rw [GetServerInfoByServerName, hname]
    rfl
  rw [← ServerEntry.same_info_iff]
  constructor
  · rintro ⟨⟨-, hfound⟩, hsame, hagree⟩
    rw [hbyName] at hsame hagree
    obtain ⟨c, hc⟩ := Option.isSome_iff_exists.mp hfound
    rw [GetServerInfoByServerId, hc] at hagree
    exact ⟨hc.trans (congrArg some hagree), hsame⟩
  · rintro ⟨hid, hsame⟩
    refine ⟨⟨by rw [hname]; rfl, by rw [hid]; rfl⟩, hbyName ▸ hsame, ?_⟩
    rw [hbyName, GetServerInfoByServerId, hid]
    rfl

/-- Without NULs in their names, the servers are found by them. -/
theorem find_by_name (hdoc : ConfigDocument document entries)
    (hnul : ∀ e ∈ entries, NulFree e.ServerName) :
    (entries.map ServerEntry.info).Nodup ∧ ∀ e ∈ entries,
      fill (fun e => e.info.ServerName) ServerEntry.info entries (fun _ => none) e.ServerName
        = some e.info := by
  have hmap : entries.map (fun e => e.info.ServerName) = entries.map ServerEntry.ServerName :=
    List.map_congr_left fun e he => cstr_of_nulFree (hnul e he)
  have hnodup : (entries.map fun e => e.info.ServerName).Nodup := hmap ▸ hdoc.ServerName
  refine ⟨List.Nodup.of_map ServerConfigInfo.ServerName ?_, fun e he => ?_⟩
  · rw [List.map_map]
    exact hnodup
  · have hfind : fill (fun e => e.info.ServerName) ServerEntry.info entries (fun _ => none)
        e.info.ServerName = some e.info := fill_of_nodup hnodup he
    rwa [show e.info.ServerName = e.ServerName from cstr_of_nulFree (hnul e he)] at hfind

/-- **The indexes agree** on all servers exactly if no two have the same id and
their values fit. A later server with the same id takes the place of the one
before it in the map of the ids and not in the other one. -/
theorem indexes_agree_iff (hdoc : ConfigDocument document entries) :
    ∃ s, new.Init document = some s ∧ ((∀ e ∈ entries, s.Indexes e)
      ↔ (entries.map ServerEntry.ServerId).Nodup ∧ ∀ e ∈ entries, e.Fits) := by
  refine ⟨_, Init_eq hdoc new, fun hindexes => ?_, fun ⟨hids, hfits⟩ e he => ?_⟩
  · -- what is found under a name is entered under it, so the name has no NUL
    have hnul : ∀ e ∈ entries, NulFree e.ServerName := by
      intro e he
      obtain ⟨c, hc⟩ := Option.isSome_iff_exists.mp (hindexes e he).found.1
      obtain ⟨e', -, hname, -⟩ := exists_of_fill hc
      exact hname ▸ nulFree_cstr e'.ServerName
    obtain ⟨hinfo, hname⟩ := find_by_name hdoc hnul
    have hfind := fun e he => (indexes_iff (hname e he)).mp (hindexes e he)
    have hids := nodup_of_fill hinfo fun e he => (hfind e he).1
    refine ⟨List.Nodup.of_map Int32.toUInt32 ?_, fun e he => (hfind e he).2⟩
    rw [List.map_map]
    exact hids
  · obtain ⟨-, hname⟩ := find_by_name hdoc fun e he => (hfits e he).ServerName
    have hinj : ∀ m n : Int32, m.toUInt32 = n.toUInt32 → m = n := by
      rintro ⟨m⟩ ⟨n⟩ h
      exact congrArg Int32.ofUInt32 h
    have hnodup : (entries.map fun e => e.info.ServerId).Nodup := by
      have hmap := hids.map_on fun m _ n _ => hinj m n
      rwa [List.map_map] at hmap
    exact (indexes_iff (hname e he)).mpr ⟨fill_of_nodup hnodup he, hfits e he⟩

/-- A server as it is written in the document. -/
def server (ServerName : String) (ServerId : Int32) (Ip : String) (Prot MaxConct : Int32) :
    List UInt8 × JsonValue :=
  (ascii ServerName, .object [(ascii "ServerName", .string (ascii ServerName)),
    (ascii "ServerId", .int ServerId), (ascii "Ip", .string (ascii Ip)),
    (ascii "Prot", .int Prot), (ascii "MaxConct", .int MaxConct)])

theorem wellTyped_server (ServerName : String) (ServerId : Int32) (Ip : String)
    (Prot MaxConct : Int32) :
    ServerEntry.WellTyped (server ServerName ServerId Ip Prot MaxConct).2
      ⟨ascii ServerName, ServerId, ascii Ip, Prot, MaxConct⟩ :=
  ⟨rfl, rfl, rfl, rfl, rfl⟩

/-- The first two servers of `ServerConfig.json`. -/
theorem indexes_agree_iff_two : ∃ s,
    new.Init (.object [(ascii "root", .object [server "GatWay" 1 "0.0.0.0" 28880 20,
      server "ServerTest" 2 "0.0.0.0" 28881 20])]) = some s
    ∧ s.Indexes ⟨ascii "GatWay", 1, ascii "0.0.0.0", 28880, 20⟩
    ∧ s.Indexes ⟨ascii "ServerTest", 2, ascii "0.0.0.0", 28881, 20⟩ := by
  have hdoc : ConfigDocument
      (.object [(ascii "root", .object [server "GatWay" 1 "0.0.0.0" 28880 20,
        server "ServerTest" 2 "0.0.0.0" 28881 20])])
      [⟨ascii "GatWay", 1, ascii "0.0.0.0", 28880, 20⟩,
        ⟨ascii "ServerTest", 2, ascii "0.0.0.0", 28881, 20⟩] :=
    ⟨⟨_, rfl, by decide, .cons (wellTyped_server _ _ _ _ _)
      (.cons (wellTyped_server _ _ _ _ _) .nil)⟩, by decide⟩
  obtain ⟨s, hs, hiff⟩ := indexes_agree_iff hdoc
  have hindexes := hiff.mpr ⟨by decide, List.forall_mem_cons.mpr
    ⟨⟨by decide, by decide, by decide, by decide, by decide⟩, List.forall_mem_singleton.mpr
      ⟨by decide, by decide, by decide, by decide, by decide⟩⟩⟩
  exact ⟨s, hs, hindexes _ (by simp), hindexes _ (by simp)⟩

/-- It is not true that the indexes agree: two of the servers of `ServerConfig.json`
have the same id. -/
theorem not_indexes_agree : ¬ ∀ document entries, ConfigDocument document entries →
    ∃ s, new.Init document = some s ∧ ∀ e ∈ entries, s.Indexes e := by
  intro h
  have hdoc : ConfigDocument
      (.object [(ascii "root", .object [server "GatWay" 1 "0.0.0.0" 28880 20,
        server "ServerTest" 2 "0.0.0.0" 28881 20, server "ClientTest" 1 "127.0.0.1" 28880 20])])
      [⟨ascii "GatWay", 1, ascii "0.0.0.0", 28880, 20⟩,
        ⟨ascii "ServerTest", 2, ascii "0.0.0.0", 28881, 20⟩,
        ⟨ascii "ClientTest", 1, ascii "127.0.0.1", 28880, 20⟩] :=
    ⟨⟨_, rfl, by decide, .cons (wellTyped_server _ _ _ _ _)
      (.cons (wellTyped_server _ _ _ _ _) (.cons (wellTyped_server _ _ _ _ _) .nil))⟩, by decide⟩
  obtain ⟨s, hs, hindexes⟩ := h _ _ hdoc
  rw [Init_eq hdoc, Option.some.injEq] at hs
  have hagree := congrArg ServerConfigInfo.Ip (hindexes _ List.mem_cons_self).agree
  rw [← hs] at hagree
  exact absurd hagree (by decide)

end CServerConfig
