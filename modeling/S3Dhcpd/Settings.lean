import S3Dhcpd.KeyStack
import S3Dhcpd.RcDump
import S3Dhcpd.RcPlain

/-! From the text of a configuration file to the networks that are served. -/
namespace S3Dhcpd
open KeyedTable Apprc RcFile

/-- A subnet as its administrator means it. -/
structure SubnetSpec where
  name : String
  addr : U32
  netmask : U32
  gateway : U32
  nameserver1 : Option U32
  nameserver2 : Option U32
  range : Option (U32 × U32)

structure NetworkSpec where
  domain_name : String
  server_addr : U32
  server_netmask : U32
  nameserver1 : U32
  nameserver2 : Option U32
  lease_time : U32
  renew_time : U32
  subnets : List SubnetSpec

/-- The keys of a subnet without its name, with their values. -/
def SubnetSpec.options (s : SubnetSpec) : List (String × String) :=
  [("-addr", ipU2s s.addr), ("-netmask", ipU2s s.netmask), ("-gateway", ipU2s s.gateway)] ++
    (s.nameserver1.toList.map fun a => ("-nameserver1", ipU2s a)) ++
    (s.nameserver2.toList.map fun a => ("-nameserver2", ipU2s a)) ++
    s.range.toList.flatMap fun r => [("-range-start", ipU2s r.1), ("-range-end", ipU2s r.2)]

def SubnetSpec.settings (s : SubnetSpec) : List (String × String) :=
  s.options.map fun o => ("subnet-" ++ s.name ++ o.1, o.2)

namespace NetworkSpec

def globals (net : NetworkSpec) : List (String × String) :=
  [("global-domain-name", net.domain_name), ("global-server-addr", ipU2s net.server_addr),
    ("global-server-netmask", ipU2s net.server_netmask),
    ("global-nameserver1", ipU2s net.nameserver1),
    ("global-lease-time", String.ofList (decimal net.lease_time.toInt)),
    ("global-renew-time", String.ofList (decimal net.renew_time.toInt))] ++
    net.nameserver2.toList.map fun a => ("global-nameserver2", ipU2s a)

def settings (net : NetworkSpec) : List (String × String) :=
  net.globals ++ net.subnets.flatMap SubnetSpec.settings

/-- The globals that the server is to have. -/
def globalnet (net : NetworkSpec) : Subnet where
  domain_name := net.domain_name
  addr := .ofU32 net.server_addr
  netmask := .ofU32 net.server_netmask
  lease_time := net.lease_time
  renew_time := net.renew_time
  broadcast := .ofU32 (getIpBroadcast net.server_addr net.server_netmask)

def optional : Option U32 → IPAddress
  | some a => .ofU32 a
  | none => .unset

/-- The subnet that is to be served for a description of it. -/
def served (net : NetworkSpec) (s : SubnetSpec) : Subnet where
  name := s.name
  addr := .ofU32 s.addr
  netmask := .ofU32 s.netmask
  gateway := .ofU32 s.gateway
  nameserver1 := .ofU32 (s.nameserver1.getD net.nameserver1)
  nameserver2 := optional (s.nameserver2 <|> net.nameserver2)
  range_start := optional (s.range.map Prod.fst)
  range_end := optional (s.range.map Prod.snd)
  broadcast := .ofU32 (getIpBroadcast s.addr s.netmask)

end NetworkSpec

/-- A text that may stand for a name or a value as it is. -/
structure Writable (s : String) : Prop where
  plain : ∀ c ∈ s.toList, Printable c ∧ c ∉ [' ', '=', '\\', '\x7b', '\x7d', '$']
  short : s.length < 400

structure NetworkSpec.Valid (net : NetworkSpec) : Prop where
  renew_le : ¬net.renew_time > net.lease_time
  ranges : ∀ s ∈ net.subnets, ∀ r, s.range = some r →
    ipInSubnet s.addr s.netmask r.1 = true ∧ ipInSubnet s.addr s.netmask r.2 = true
  names : ∀ s ∈ net.subnets, PlainName s.name ∧ Writable s.name
  distinct : (net.subnets.map SubnetSpec.name).Nodup
  domain : Writable net.domain_name

/-- `key = value` -/
def settingLine (item : String × String) : List Char :=
  writtenLine [] item.1.toList [' '] [' '] item.2.toList []

/-- The insertions that settings lead to. -/
def fill : HashApprc → List (String × String) → Except HashTableException HashApprc
  | rc, [] => .ok rc
  | rc, item :: items =>
    match rc.insert item.1.toList item.2.toList with
    | .ok rc => fill rc items
    | .error e => .error e

section Lines
variable {host : Host} {item : String × String} {items : List (String × String)}
  {l : Loader HashApprc} {f : Frame} {rc rc' : HashApprc}

theorem fill_cons : fill rc (item :: items) = .ok rc' ↔
    ∃ rc₁, rc.insert item.1.toList item.2.toList = .ok rc₁ ∧ fill rc₁ items = .ok rc' := by
  rw [fill]
  cases hinsert : rc.insert item.1.toList item.2.toList with
  | ok rc₁ =>
    constructor
    · exact fun h => ⟨rc₁, rfl, h⟩
    · rintro ⟨rc₂, heq, h⟩
      obtain rfl := Except.ok.inj heq
      exact h
  | error e =>
    constructor
    · exact fun h => by cases h
    · rintro ⟨rc₁, h, -⟩
      cases h

/-- Lines that store their settings, one after the other. -/
theorem loads_settings
    (h : ∀ item ∈ items, SetsKey (settingLine item) item.1.toList item.2.toList)
    (hfill : fill l.rc items = .ok rc) (hlev : f.lev = 0) (hactive : doIgnore f = false) :
    Loads host (.ofText (unlines (items.map settingLine))) l f (.ok { l with rc }) := by
  -- on the lines; the table that one leaves is the one that the next begins with
  induction items generalizing l f with
  | nil =>
    obtain rfl := Except.ok.inj hfill
    refine loads_nil.mpr ?_
    rw [finish, if_neg (not_not.mpr hlev)]
  | cons item items ih =>
    rw [List.forall_mem_cons] at h
    obtain ⟨rc₁, hinsert, hfill⟩ := fill_cons.mp hfill
    have hactive' : doIgnore (f.nextLine (settingLine item)) = false := hactive
    have hturn : turn host l (f.nextLine (settingLine item)) (settingLine item) =
        .next { l with rc := rc₁ } (f.nextLine (settingLine item)) := h.1.turn hactive' hinsert
    rw [List.map_cons, unlines_cons, loads_step h.1.short (.next hturn)]
    exact @ih { l with rc := rc₁ } (f.nextLine (settingLine item)) h.2 hfill hlev hactive'

/-- The table that is filled holds the settings, as long as no two of them have the same name in
it. -/
theorem value_fill (hunique : (items.map fun item => HashApprc.slotKey item.1).Nodup)
    (hfill : fill rc items = .ok rc') : (∀ item ∈ items, rc'.value item.1 = some item.2) ∧
      ∀ k, HashApprc.slotKey k ∉ items.map (fun item => HashApprc.slotKey item.1) →
        rc'.value k = rc.value k := by
  induction items generalizing rc with
  | nil =>
    obtain rfl := Except.ok.inj hfill
    exact ⟨fun _ h => absurd h List.not_mem_nil, fun _ _ => rfl⟩
  | cons item items ih =>
    obtain ⟨rc₁, hinsert, hfill⟩ := fill_cons.mp hfill
    rw [List.map_cons, List.nodup_cons] at hunique
    obtain ⟨hvalues, hothers⟩ := ih hunique.2 hfill
    refine ⟨List.forall_mem_cons.mpr ⟨?_, hvalues⟩, fun k hk => ?_⟩
    · rw [hothers item.1 hunique.1, HashApprc.insert_value hinsert, HashApprc.slotKey, if_pos rfl,
        String.ofList_toList]
    · rw [List.map_cons, List.mem_cons, not_or] at hk
      rw [hothers k hk.2, HashApprc.insert_value hinsert]
      exact if_neg hk.1

theorem fill_keyst (hfill : fill rc items = .ok rc') : rc'.keyst = rc.keyst := by
  induction items generalizing rc with
  | nil => rw [Except.ok.inj hfill]
  | cons item items ih =>
    obtain ⟨rc₁, hinsert, hfill⟩ := fill_cons.mp hfill
    rw [ih hfill, HashApprc.insert_keyst hinsert]

/-- The settings are what a walk of the filled table comes to. -/
theorem entries_fill (hprint : ∀ item ∈ items, ∀ c ∈ item.1.toList, Printable c)
    (hunique : (items.map Prod.fst).Nodup) (hfill : fill .new items = .ok rc) :
    rc.entries.rows.Perm items := by
  have htext (item : String × String) (hitem : item ∈ items) :
      HashApprc.slotText (HashApprc.slotKey item.1) = item.1 := by
    rw [HashApprc.slotKey, slotText_ofText (hprint item hitem), String.ofList_toList]
  have hslots : (items.map fun item => HashApprc.slotKey item.1).Nodup := by
    refine List.Nodup.of_map HashApprc.slotText ?_
    have hnames : (HashApprc.slotText ∘ fun item : String × String => HashApprc.slotKey item.1) =
        fun item => HashApprc.slotText (HashApprc.slotKey item.1) := rfl
    rw [List.map_map, hnames, List.map_congr_left htext]
    exact hunique
  obtain ⟨hvalues, hothers⟩ := value_fill hslots hfill
  refine (List.perm_ext_iff_of_nodup rc.entries.rows_nodup (List.Nodup.of_map _ hunique)).mpr ?_
  intro item
  constructor
  · intro hitem
    obtain ⟨c, hholds, hc⟩ := HashApprc.mem_entries.mp hitem
    have hslot : HashApprc.slotKey item.1 = c := by
      rw [← hc, HashApprc.slotKey_slotText]
    have hvalue : rc.value item.1 = some item.2 := HashApprc.value_iff.mpr (hslot ▸ hholds)
    by_cases hk : HashApprc.slotKey item.1 ∈ items.map fun item => HashApprc.slotKey item.1
    · obtain ⟨item', hitem', hslot'⟩ := List.mem_map.mp hk
      have hkey : item'.1 = item.1 := by
        rw [← htext item' hitem', hslot', hslot, hc]
      have hvalue' := hvalues item' hitem'
      rw [hkey, hvalue, Option.some.injEq] at hvalue'
      rwa [Prod.ext hkey.symm hvalue']
    · rw [hothers item.1 hk, HashApprc.value_new] at hvalue
      cases hvalue
  · intro hitem
    exact HashApprc.mem_entries.mpr
      ⟨_, HashApprc.value_iff.mp (hvalues item hitem), htext item hitem⟩

end Lines

section Texts
variable {net : NetworkSpec} {s : SubnetSpec} {item : String × String}

/-- The keys of a subnet behind its name. -/
def suffixes : List String :=
  ["-addr", "-netmask", "-gateway", "-nameserver1", "-nameserver2", "-range-start", "-range-end"]

def globalKeys : List String :=
  ["global-domain-name", "global-server-addr", "global-server-netmask", "global-nameserver1",
    "global-lease-time", "global-renew-time", "global-nameserver2"]

def PlainChar (c : Char) : Prop := Printable c ∧ c ∉ [' ', '=', '\\', '\x7b', '\x7d', '$']

instance (c : Char) : Decidable (PlainChar c) := inferInstanceAs (Decidable (_ ∧ _))

theorem octetText_plain (b : Byte) : ∀ c ∈ octetText b, PlainChar c := by
  have hall : ∀ b : Byte, (octetText b).all (fun c => PlainChar c) = true :=
    forall_byte (by decide +kernel)
  intro c hc
  simpa using List.all_eq_true.mp (hall b) c hc

theorem writable_ip (a : U32) : Writable (ipU2s a) := by
  refine ⟨fun c hc => ?_, ?_⟩
  · have hdot : PlainChar '.' := by decide
    rw [ipU2s, String.toList_ofList] at hc
    simp only [List.mem_append, List.mem_cons] at hc
    rcases hc with h | rfl | h | rfl | h | rfl | h
    · exact octetText_plain _ c h
    · exact hdot
    · exact octetText_plain _ c h
    · exact hdot
    · exact octetText_plain _ c h
    · exact hdot
    · exact octetText_plain _ c h
  · exact (length_ipU2s a).trans_lt (by decide)

theorem writable_decimal (n : U32) : Writable (String.ofList (decimal n.toInt)) := by
  refine ⟨fun c hc => ?_, ?_⟩
  · rw [String.toList_ofList] at hc
    rcases decimal_char hc with rfl | hdigit
    · decide
    · have hrange := digit_range hdigit
      refine ⟨⟨by omega, by omega⟩, ?_⟩
      simp only [List.mem_cons, List.not_mem_nil, or_false, not_or]
      refine ⟨?_, ?_, ?_, ?_, ?_, ?_⟩ <;>
        · rintro rfl
          exact absurd hdigit (by decide)
  · have hbound : n.toInt.natAbs < 10^10 := by
      have hlow := BitVec.le_toInt n
      have hhigh := BitVec.toInt_lt (x := n)
      omega
    have hdigits : (Nat.toDigits 10 n.toInt.natAbs).length ≤ 10 :=
      (Nat.length_toDigits_le_iff (by decide) (by decide)).mpr hbound
    rw [String.length_ofList, decimal]
    split_ifs
    · rw [List.length_cons]
      omega
    · omega

theorem mem_options {o : String × String} (ho : o ∈ s.options) :
    o.1 ∈ suffixes ∧ ∃ a, o.2 = ipU2s a := by
  simp only [SubnetSpec.options, List.mem_append, List.mem_cons, List.not_mem_nil, or_false,
    List.mem_map, List.mem_flatMap] at ho
  rcases ho with (((rfl | rfl | rfl) | ⟨a, -, rfl⟩) | ⟨a, -, rfl⟩) | ⟨r, -, rfl | rfl⟩ <;>
    exact ⟨by simp [suffixes], _, rfl⟩

theorem mem_globals (hdomain : Writable net.domain_name) (hitem : item ∈ net.globals) :
    item.1 ∈ globalKeys ∧ Writable item.2 := by
  simp only [NetworkSpec.globals, List.mem_append, List.mem_cons, List.not_mem_nil, or_false,
    List.mem_map] at hitem
  rcases hitem with (rfl | rfl | rfl | rfl | rfl | rfl) | ⟨a, -, rfl⟩
  · exact ⟨by simp [globalKeys], hdomain⟩
  · exact ⟨by simp [globalKeys], writable_ip _⟩
  · exact ⟨by simp [globalKeys], writable_ip _⟩
  · exact ⟨by simp [globalKeys], writable_ip _⟩
  · exact ⟨by simp [globalKeys], writable_decimal _⟩
  · exact ⟨by simp [globalKeys], writable_decimal _⟩
  · exact ⟨by simp [globalKeys], writable_ip _⟩

/-- A key that is read as it is written. -/
theorem plainKey_writable {k : List Char} (hplain : ∀ c ∈ k, PlainChar c) (hlong : 3 ≤ k.length)
    (hfirst : k.head? = some 's' ∨ k.head? = some 'g') (hlast : k.getLast? ≠ some ']') :
    PlainKey k where
  long := hlong
  plain := hplain
  first := by
    intro c hc
    rcases hfirst with h | h
    · obtain rfl := Option.some.inj (h.symm.trans hc)
      decide
    · obtain rfl := Option.some.inj (h.symm.trans hc)
      decide
  array := by
    rintro ⟨front, rfl⟩
    exact hlast (by simp)

theorem readsValue_writable {v : String} (hv : Writable v) : ReadsValue v.toList v.toList := by
  have hblank {c : Char} (hc : c ∈ v.toList) : isBlankOrTab c = false ∧ c ≠ '\n' := by
    obtain ⟨hprint, hplain⟩ := hv.plain c hc
    have hnot {x : Char} (hx : ¬Printable x) : c ≠ x := by
      rintro rfl
      exact hx hprint
    have hspace : c ≠ ' ' := fun h => hplain (h ▸ List.mem_cons_self)
    rw [isBlankOrTab, beq_eq_false_iff_ne.mpr hspace, beq_eq_false_iff_ne.mpr (hnot (by decide))]
    exact ⟨rfl, hnot (by decide)⟩
  refine readsValue_plain (fun c hc => ?_) (fun c hc => ?_) fun c hc => ?_
  · obtain ⟨-, hplain⟩ := hv.plain c hc
    simp only [List.mem_cons, List.not_mem_nil, or_false, not_or] at hplain
    simp only [ACTIVE, List.mem_cons, List.not_mem_nil, or_false, not_or]
    exact ⟨hplain.2.2.1, hplain.2.2.2.1, hplain.2.2.2.2.1, hplain.2.2.2.2.2⟩
  · exact (hblank (List.mem_of_mem_head? hc)).1
  · obtain ⟨h, hnewline⟩ := hblank (List.mem_of_getLast? hc)
    rw [isTrimmed, h, beq_eq_false_iff_ne.mpr hnewline]
    rfl

/-- What every key of a configuration is like. -/
structure SettingKey (k : List Char) : Prop where
  plain : ∀ c ∈ k, PlainChar c
  long : 3 ≤ k.length
  first : k.head? = some 's' ∨ k.head? = some 'g'
  last : k.getLast? ≠ some ']'
  short : k.length < 500

theorem settingKey_global {k : String} (hk : k ∈ globalKeys) : SettingKey k.toList := by
  have hall : ∀ k ∈ globalKeys, k.toList.all (fun c => PlainChar c) = true ∧ 3 ≤ k.toList.length ∧
      k.toList.head? = some 'g' ∧ k.toList.getLast? ≠ some ']' ∧ k.toList.length < 500 := by decide
  obtain ⟨hplain, hlong, hfirst, hlast, hshort⟩ := hall k hk
  exact ⟨forall_mem_of_all hplain, hlong, Or.inr hfirst, hlast, hshort⟩

theorem toList_key (name suffix : String) :
    ("subnet-" ++ name ++ suffix).toList = "subnet-".toList ++ (name.toList ++ suffix.toList) := by
  rw [String.toList_append, String.toList_append, List.append_assoc]

theorem settingKey_subnet {name suffix : String} (hname : Writable name) (hsuffix : suffix ∈ suffixes) :
    SettingKey ("subnet-" ++ name ++ suffix).toList := by
  have hall : ∀ k ∈ suffixes, k.toList.all (fun c => PlainChar c) = true ∧
      k.toList.getLast? ≠ some ']' ∧ k.toList ≠ [] ∧ k.toList.length < 20 := by decide
  have hfront : "subnet-".toList.all (fun c => PlainChar c) = true ∧
      "subnet-".toList.length = 7 := by decide
  obtain ⟨hplain, hlast, hne, hshort⟩ := hall suffix hsuffix
  have hlen : name.toList.length < 400 := hname.short
  rw [toList_key]
  refine ⟨?_, ?_, Or.inl rfl, ?_, ?_⟩
  · simp only [List.forall_mem_append]
    exact ⟨forall_mem_of_all hfront.1, hname.plain, forall_mem_of_all hplain⟩
  · rw [List.length_append, hfront.2]
    omega
  · rwa [List.getLast?_append_of_ne_nil _ (List.append_ne_nil_of_right_ne_nil _ hne),
      List.getLast?_append_of_ne_nil _ hne]
  · rw [List.length_append, List.length_append, hfront.2]
    omega

theorem mem_settings (hnet : net.Valid) (hitem : item ∈ net.settings) :
    SettingKey item.1.toList ∧ Writable item.2 := by
  rcases List.mem_append.mp hitem with hglobal | hsubnet
  · obtain ⟨hkey, hvalue⟩ := mem_globals hnet.domain hglobal
    exact ⟨settingKey_global hkey, hvalue⟩
  · obtain ⟨s, hs, hmem⟩ := List.mem_flatMap.mp hsubnet
    obtain ⟨o, ho, rfl⟩ := List.mem_map.mp hmem
    obtain ⟨hsuffix, a, ha⟩ := mem_options ho
    refine ⟨settingKey_subnet (hnet.names s hs).2 hsuffix, ?_⟩
    rw [ha]
    exact writable_ip a

theorem assigns_setting (hkey : SettingKey item.1.toList) (hvalue : Writable item.2) :
    SetsKey (settingLine item) item.1.toList item.2.toList := by
  have hlen : (settingLine item).length < 1000 := by
    have hk := hkey.short
    have hv : item.2.toList.length < 400 := hvalue.short
    simp only [settingLine, writtenLine, List.nil_append, List.append_nil, List.length_append,
      List.length_cons, List.length_nil]
    omega
  have habsent {c : Char} (hc : ¬Printable c) : c ∉ item.2.toList :=
    fun hmem => hc (hvalue.plain c hmem).1
  have hblanks : Blanks [] ∧ Blanks [' '] :=
    ⟨forall_mem_of_all (by decide), forall_mem_of_all (by decide)⟩
  exact assigns_written (plainKey_writable hkey.plain hkey.long hkey.first hkey.last)
    (readsValue_writable hvalue) (habsent (by decide)) (habsent (by decide))
    hblanks.1 hblanks.2 hblanks.2 hblanks.1 hlen

end Texts

section Keys
variable {net : NetworkSpec} {s s' : SubnetSpec} {name name' suffix suffix' : String}

theorem suffix_dash (h : suffix ∈ suffixes) : ∃ rest, suffix.toList = '-' :: rest := by
  have hall : ∀ k ∈ suffixes, k.toList.head? = some '-' := by decide
  have hhead := hall suffix h
  cases htext : suffix.toList with
  | nil =>
    rw [htext] at hhead
    cases hhead
  | cons c rest =>
    rw [htext, List.head?_cons, Option.some.injEq] at hhead
    exact ⟨rest, by rw [hhead]⟩

/-- A plain name can be read off a key. -/
theorem key_inj (hname : PlainName name) (hname' : PlainName name') (hsuffix : suffix ∈ suffixes)
    (hsuffix' : suffix' ∈ suffixes)
    (h : "subnet-" ++ name ++ suffix = "subnet-" ++ name' ++ suffix') :
    name = name' ∧ suffix = suffix' := by
  obtain ⟨rest, hrest⟩ := suffix_dash hsuffix
  obtain ⟨rest', hrest'⟩ := suffix_dash hsuffix'
  have htext : name.toList ++ suffix.toList = name'.toList ++ suffix'.toList := by
    have hkeys := congrArg String.toList h
    rwa [toList_key, toList_key, List.append_cancel_left_eq] at hkeys
  have hsame : name.toList = name'.toList := by
    have hcut := congrArg (List.takeWhile (· ≠ '-')) htext
    rwa [hrest, hrest', takeWhile_to hname.2, takeWhile_to hname'.2] at hcut
  rw [hsame, List.append_cancel_left_eq] at htext
  exact ⟨String.toList_inj.mp hsame, String.toList_inj.mp htext⟩

/-- A key of a subnet is no global one. -/
theorem key_not_global (name suffix : String) : "subnet-" ++ name ++ suffix ∉ globalKeys := by
  have hall : ∀ k ∈ globalKeys, k.toList.head? = some 'g' := by decide
  intro hmem
  have hhead := hall _ hmem
  rw [toList_key] at hhead
  cases hhead

theorem options_unique (s : SubnetSpec) : (s.options.map Prod.fst).Nodup := by
  obtain ⟨name, addr, netmask, gateway, nameserver1, nameserver2, range⟩ := s
  cases nameserver1 <;> cases nameserver2 <;> cases range <;>
    · simp only [SubnetSpec.options, Option.toList_none, Option.toList_some, List.map_nil,
        List.flatMap_nil, List.map_cons, List.flatMap_cons, List.append_nil, List.cons_append,
        List.nil_append]
      decide

theorem globals_unique (net : NetworkSpec) : (net.globals.map Prod.fst).Nodup := by
  obtain ⟨domain_name, server_addr, server_netmask, nameserver1, nameserver2, _, _, _⟩ := net
  cases nameserver2 <;>
    · simp only [NetworkSpec.globals, Option.toList_none, Option.toList_some, List.map_nil,
        List.map_cons, List.append_nil, List.cons_append, List.nil_append]
      decide

theorem mem_subnet_settings {v : String} (hs : PlainName s.name) (hname : PlainName name)
    (hsuffix : suffix ∈ suffixes) (h : ("subnet-" ++ name ++ suffix, v) ∈ s.settings) :
    name = s.name ∧ (suffix, v) ∈ s.options := by
  obtain ⟨o, ho, heq⟩ := List.mem_map.mp h
  obtain ⟨hkey, rfl⟩ := Prod.mk.inj heq
  obtain ⟨rfl, rfl⟩ := key_inj hs hname (mem_options ho).1 hsuffix hkey
  exact ⟨rfl, ho⟩

theorem spec_unique (hnet : net.Valid) (hs : s ∈ net.subnets) (hs' : s' ∈ net.subnets)
    (h : s.name = s'.name) : s = s' :=
  List.inj_on_of_nodup_map hnet.distinct hs hs' h

theorem settings_unique (hnet : net.Valid) : (net.settings.map Prod.fst).Nodup := by
  have hsettings (s : SubnetSpec) : s.settings.map Prod.fst =
      (s.options.map Prod.fst).map fun suffix => "subnet-" ++ s.name ++ suffix := by
    rw [SubnetSpec.settings, List.map_map, List.map_map]
    rfl
  have hsuffix {s : SubnetSpec} {k : String} (hk : k ∈ s.options.map Prod.fst) : k ∈ suffixes := by
    obtain ⟨o, ho, rfl⟩ := List.mem_map.mp hk
    exact (mem_options ho).1
  rw [NetworkSpec.settings, List.map_append, List.map_flatMap, List.nodup_append, List.nodup_flatMap]
  refine ⟨globals_unique net, ⟨?_, ?_⟩, ?_⟩
  · intro s hs
    rw [hsettings]
    refine List.Nodup.map_on (fun k hk k' hk' heq => ?_) (options_unique s)
    exact (key_inj (hnet.names s hs).1 (hnet.names s hs).1 (hsuffix hk) (hsuffix hk') heq).2
  · -- two subnets have no key in common, as they have no name in common
    refine (List.pairwise_map.mp hnet.distinct).imp_of_mem fun {s s'} hs hs' hne => ?_
    intro k hk hk'
    dsimp only at hk hk'
    rw [hsettings] at hk hk'
    obtain ⟨suffix, hmem, rfl⟩ := List.mem_map.mp hk
    obtain ⟨suffix', hmem', heq⟩ := List.mem_map.mp hk'
    have hboth := key_inj (hnet.names s' hs').1 (hnet.names s hs).1 (hsuffix hmem') (hsuffix hmem) heq
    exact hne hboth.1.symm
  · intro k hk k' hk' heq
    obtain ⟨g, hg, rfl⟩ := List.mem_map.mp hk
    obtain ⟨s, -, hmem⟩ := List.mem_flatMap.mp hk'
    rw [hsettings] at hmem
    obtain ⟨suffix, -, rfl⟩ := List.mem_map.mp hmem
    have hglobal := (mem_globals hnet.domain hg).1
    rw [heq] at hglobal
    exact key_not_global s.name suffix hglobal

end Keys

section Reading
variable {net : NetworkSpec} {s : SubnetSpec} {rc : Apprc} {key suffix x : String}

theorem seek_global (hrows : rc.items.rows.Perm net.settings) (hkey : key ∈ globalKeys) :
    rc.seek key = some x ↔ (key, x) ∈ net.globals := by
  have hall : ∀ k ∈ globalKeys, isRelative k = false := by decide
  have hvalue : rc.value key = some x ↔ (key, x) ∈ net.settings := value_iff_mem hrows.symm
  rw [seek, hall key hkey, NetworkSpec.settings, List.mem_append] at *
  refine hvalue.trans ⟨fun h => h.resolve_right fun hsubnet => ?_, Or.inl⟩
  obtain ⟨s, -, hmem⟩ := List.mem_flatMap.mp hsubnet
  obtain ⟨o, -, heq⟩ := List.mem_map.mp hmem
  obtain ⟨rfl, -⟩ := Prod.mk.inj heq
  exact key_not_global s.name o.1 hkey

theorem seek_option (hrows : rc.items.rows.Perm net.settings) (hnet : net.Valid)
    (hs : s ∈ net.subnets) (hkeyst : rc.keyst = some ("subnet-" ++ s.name))
    (hsuffix : suffix ∈ suffixes) : rc.seek suffix = some x ↔ (suffix, x) ∈ s.options := by
  have hall : ∀ k ∈ suffixes, isRelative k = true := by decide
  have hvalue : rc.value ("subnet-" ++ s.name ++ suffix) = some x ↔
      ("subnet-" ++ s.name ++ suffix, x) ∈ net.settings := value_iff_mem hrows.symm
  rw [seek, hall suffix hsuffix, hkeyst]
  refine hvalue.trans ⟨fun h => ?_, fun h => ?_⟩
  · rcases List.mem_append.mp h with hglobal | hsubnet
    · exact absurd (mem_globals hnet.domain hglobal).1 (key_not_global s.name suffix)
    · obtain ⟨s', hs', hmem⟩ := List.mem_flatMap.mp hsubnet
      obtain ⟨hname, hoption⟩ :=
        mem_subnet_settings (hnet.names s' hs').1 (hnet.names s hs).1 hsuffix hmem
      rwa [spec_unique hnet hs hs' hname]
  · exact List.mem_append_right _ (List.mem_flatMap.mpr ⟨s, hs, List.mem_map.mpr ⟨_, h, rfl⟩⟩)

theorem getstring_seek (h : rc.seek key = some x) : rc.getstring key = .ok x := by
  rw [getstring, h]

theorem address_seek {a : U32} (h : rc.seek key = some (ipU2s a)) :
    Subnets.address rc key = .ok (.ofU32 a) := by
  rw [Subnets.address, getstring_seek h, IPAddress.ofU32, ← ipS2u_ipU2s a]
  simp [Subnets.liftKey, IPAddress.ofText, Functor.map, Except.map]

/-- Where the keys of a subnet are looked up. -/
structure Reads (net : NetworkSpec) (s : SubnetSpec) (rc : Apprc) : Prop where
  rows : rc.items.rows.Perm net.settings
  valid : net.Valid
  mem : s ∈ net.subnets
  keyst : rc.keyst = some ("subnet-" ++ s.name)

theorem Reads.required (h : Reads net s rc) {a : U32} (ho : (suffix, ipU2s a) ∈ s.options) :
    Subnets.address rc suffix = .ok (.ofU32 a) :=
  address_seek ((seek_option h.rows h.valid h.mem h.keyst (mem_options ho).1).mpr ho)

/-- A key that is there for an optional address. -/
theorem Reads.optional (h : Reads net s rc) (hsuffix : suffix ∈ suffixes) {a : Option U32}
    (ha : ∀ x, (suffix, x) ∈ s.options ↔ a.map ipU2s = some x) : rc.seek suffix = a.map ipU2s := by
  apply Option.ext
  intro x
  rw [seek_option h.rows h.valid h.mem h.keyst hsuffix, ha]

theorem Reads.seek_nameserver1 (h : Reads net s rc) :
    rc.seek "-nameserver1" = s.nameserver1.map ipU2s := by
  refine h.optional (by simp [suffixes]) fun x => ?_
  simp [SubnetSpec.options, eq_comm]

theorem Reads.seek_nameserver2 (h : Reads net s rc) :
    rc.seek "-nameserver2" = s.nameserver2.map ipU2s := by
  refine h.optional (by simp [suffixes]) fun x => ?_
  simp [SubnetSpec.options, eq_comm]

theorem Reads.seek_range (h : Reads net s rc) :
    rc.seek "-range-start" = (s.range.map Prod.fst).map ipU2s ∧
      rc.seek "-range-end" = (s.range.map Prod.snd).map ipU2s := by
  constructor
  · refine h.optional (by simp [suffixes]) fun x => ?_
    cases hr : s.range <;> simp [SubnetSpec.options, hr, eq_comm]
  · refine h.optional (by simp [suffixes]) fun x => ?_
    cases hr : s.range <;> simp [SubnetSpec.options, hr, eq_comm]

theorem Reads.global (h : Reads net s rc) (hkey : key ∈ globalKeys) {a : Option U32}
    (ha : ∀ x, (key, x) ∈ net.globals ↔ a.map ipU2s = some x) : rc.seek key = a.map ipU2s := by
  apply Option.ext
  intro x
  rw [seek_global h.rows hkey, ha]

theorem Reads.nameserver1 (h : Reads net s rc) :
    Subnets.nameserver1 rc = .ok (.ofU32 (s.nameserver1.getD net.nameserver1)) := by
  have hdefault : rc.seek "global-nameserver1" = (some net.nameserver1).map ipU2s := by
    refine h.global (by simp [globalKeys]) fun x => ?_
    simp [NetworkSpec.globals, eq_comm]
  have htext : (rc.seek "-nameserver1").getD (ipU2s net.nameserver1) =
      ipU2s (s.nameserver1.getD net.nameserver1) := by
    rw [h.seek_nameserver1]
    cases s.nameserver1 <;> rfl
  rw [Subnets.nameserver1, getstring_seek hdefault]
  simp only [Subnets.liftKey, bind, Except.bind, pure, Except.pure, htext, IPAddress.ofText,
    ipS2u_ipU2s, IPAddress.ofU32]

theorem Reads.nameserver2 (h : Reads net s rc) :
    Subnets.nameserver2 rc = .ok (NetworkSpec.optional (s.nameserver2 <|> net.nameserver2)) := by
  have hown := h.seek_nameserver2
  have hglobal : rc.seek "global-nameserver2" = net.nameserver2.map ipU2s := by
    refine h.global (by simp [globalKeys]) fun x => ?_
    simp [NetworkSpec.globals, eq_comm]
  rw [Subnets.nameserver2, hasKey, hasKey]
  cases ho : s.nameserver2 with
  | some a =>
    rw [ho, Option.map_some] at hown
    rw [hown, Option.isSome_some, if_pos rfl, address_seek hown]
    rfl
  | none =>
    rw [ho, Option.map_none] at hown
    rw [hown, if_neg (by decide)]
    cases hg : net.nameserver2 with
    | some a =>
      rw [hg, Option.map_some] at hglobal
      rw [hglobal, Option.isSome_some, if_pos rfl, address_seek hglobal]
      rfl
    | none =>
      rw [hg, Option.map_none] at hglobal
      rw [hglobal, if_neg (by decide)]
      rfl

/-- A subnet is loaded as it was described. -/
theorem Reads.loadSubnet (h : Reads net s rc) :
    (Subnets.loadSubnet rc s.name).map Subtype.val = .ok (net.served s) := by
  have haddr := @Reads.required net s rc "-addr" h s.addr (by simp [SubnetSpec.options])
  have hnetmask := @Reads.required net s rc "-netmask" h s.netmask (by simp [SubnetSpec.options])
  have hgateway := @Reads.required net s rc "-gateway" h s.gateway (by simp [SubnetSpec.options])
  obtain ⟨hstart, hend⟩ := h.seek_range
  simp only [Subnets.loadSubnet, haddr, hnetmask, hgateway, h.nameserver1, h.nameserver2, bind,
    Except.bind, hasKey, hstart]
  cases hr : s.range with
  | none =>
    have hserved : net.served s = { net.served s with range_start := .unset, range_end := .unset } := by
      rw [NetworkSpec.served, hr]
      rfl
    rw [Option.map_none, Option.map_none, Option.isSome_none, if_neg (by decide), hserved]
    rfl
  | some r =>
    rw [hr, Option.map_some, Option.map_some] at hstart hend
    obtain ⟨hfirst, hlast⟩ := h.valid.ranges s h.mem r hr
    have hserved : net.served s =
        { net.served s with range_start := .ofU32 r.1, range_end := .ofU32 r.2 } := by
      rw [NetworkSpec.served, hr]
      rfl
    rw [Option.map_some, Option.map_some, Option.isSome_some, if_pos rfl, address_seek hstart,
      address_seek hend, hserved]
    dsimp only
    rw [dif_neg]
    · rfl
    · rw [Bool.or_eq_true, Bool.not_eq_true', Bool.not_eq_true', not_or]
      exact ⟨Bool.not_eq_false _ ▸ hfirst, Bool.not_eq_false _ ▸ hlast⟩

end Reading

section Walk
variable {net : NetworkSpec} {s : SubnetSpec} {rc : Apprc} {name suffix : String}

theorem subnetName_addr (name : String) :
    Subnets.subnetName ("subnet-" ++ name ++ "-addr") = some name := by
  have hprefix : "subnet-".toList.isPrefixOf ("subnet-".toList ++ (name.toList ++ "-addr".toList)) =
      true := List.isPrefixOf_iff_prefix.mpr (List.prefix_append _ _)
  have hsuffix : "-addr".toList.isSuffixOf ("subnet-".toList ++ (name.toList ++ "-addr".toList)) =
      true := List.isSuffixOf_iff_suffix.mpr
        ((List.suffix_append _ _).trans (List.suffix_append _ _))
  have hlen : "subnet-".toList.length = 7 ∧ "-addr".toList.length = 5 := by decide
  have hcut : (("subnet-".toList ++ (name.toList ++ "-addr".toList)).drop 7).take
      (("subnet-".toList ++ (name.toList ++ "-addr".toList)).length-7-5) = name.toList := by
    rw [← hlen.1, List.drop_left, List.length_append, List.length_append, hlen.2,
      Nat.add_sub_cancel_left, Nat.add_sub_cancel, List.take_left]
  rw [Subnets.subnetName, toList_key, hprefix, hsuffix, Bool.and_self, if_pos rfl, hcut,
    String.ofList_toList]

theorem subnetName_other (hsuffix : suffix ∈ suffixes) (hne : suffix ≠ "-addr") :
    Subnets.subnetName ("subnet-" ++ name ++ suffix) = none := by
  have hall : ∀ k ∈ suffixes, k ≠ "-addr" → k.toList ≠ [] ∧ k.toList.getLast? ≠ some 'r' := by decide
  obtain ⟨hnil, hlast⟩ := hall suffix hsuffix hne
  rw [Subnets.subnetName, toList_key, if_neg]
  rw [Bool.and_eq_true, not_and]
  intro _ hend
  obtain ⟨front, hfront⟩ := List.isSuffixOf_iff_suffix.mp hend
  have hr := congrArg List.getLast? hfront
  rw [List.getLast?_append_of_ne_nil _ (by decide),
    List.getLast?_append_of_ne_nil _ (List.append_ne_nil_of_right_ne_nil _ hnil),
    List.getLast?_append_of_ne_nil _ hnil] at hr
  exact hlast hr.symm

theorem subnetName_global {key : String} (hkey : key ∈ globalKeys) :
    Subnets.subnetName key = none := by
  have hall : ∀ k ∈ globalKeys, Subnets.subnetName k = none := by decide
  exact hall key hkey

theorem subnetNames_settings (hnet : net.Valid) :
    (net.settings.map Prod.fst).filterMap Subnets.subnetName = net.subnets.map SubnetSpec.name := by
  have hglobals : (net.globals.map Prod.fst).filterMap Subnets.subnetName = [] := by
    rw [List.filterMap_eq_nil_iff]
    intro k hk
    obtain ⟨g, hg, rfl⟩ := List.mem_map.mp hk
    exact subnetName_global (mem_globals hnet.domain hg).1
  have hone (s : SubnetSpec) :
      (s.settings.map Prod.fst).filterMap Subnets.subnetName = [s.name] := by
    have hcons : s.options = ("-addr", ipU2s s.addr) :: s.options.tail := rfl
    have htail : ((s.options.tail.map fun o => ("subnet-" ++ s.name ++ o.1, o.2)).map
        Prod.fst).filterMap Subnets.subnetName = [] := by
      rw [List.filterMap_eq_nil_iff, List.map_map]
      intro k hk
      obtain ⟨o, ho, rfl⟩ := List.mem_map.mp hk
      refine subnetName_other (mem_options (List.mem_of_mem_tail ho)).1 ?_
      -- the key of the address comes first, and no key comes twice
      have hunique := options_unique s
      rw [hcons, List.map_cons, List.nodup_cons] at hunique
      intro heq
      exact hunique.1 (heq ▸ List.mem_map.mpr ⟨o, ho, rfl⟩)
    rw [SubnetSpec.settings, hcons, List.map_cons, List.map_cons, List.filterMap_cons_some
      (subnetName_addr s.name), htail]
  rw [NetworkSpec.settings, List.map_append, List.filterMap_append, hglobals, List.nil_append]
  induction net.subnets with
  | nil => rfl
  | cons s subnets ih =>
    rw [List.flatMap_cons, List.map_append, List.filterMap_append, hone, ih, List.map_cons]
    rfl

/-- The walk loads the subnets in the order in which it comes to their addresses. -/
theorem loadKeys_served (hrows : rc.items.rows.Perm net.settings) (hnet : net.Valid)
    (hkeyst : rc.keyst = some "subnet") {keys : List String}
    (hkeys : ∀ key ∈ keys, ∀ name, Subnets.subnetName key = some name →
      ∃ s ∈ net.subnets, s.name = name) :
    ∃ (specs : List SubnetSpec) (subs : List {sub : Subnet // sub.RangeInside}),
      keys.filterMap Subnets.subnetName = specs.map SubnetSpec.name ∧
      (∀ s ∈ specs, s ∈ net.subnets) ∧ Subnets.loadKeys keys rc = .ok (rc, subs) ∧
      subs.map Subtype.val = specs.map net.served := by
  induction keys with
  | nil => exact ⟨[], [], rfl, fun _ h => absurd h List.not_mem_nil, rfl, rfl⟩
  | cons key keys ih =>
    rw [List.forall_mem_cons] at hkeys
    obtain ⟨specs, subs, hnames, hmem, hload, hserved⟩ := ih hkeys.2
    cases hname : Subnets.subnetName key with
    | none =>
      refine ⟨specs, subs, ?_, hmem, ?_, hserved⟩
      · rw [List.filterMap_cons_none hname, hnames]
      · rw [Subnets.loadKeys, hname]
        exact hload
    | some name =>
      obtain ⟨s, hs, rfl⟩ := hkeys.1 name hname
      have hplain := (hnet.names s hs).1
      have hpop : (rc.push s.name).pop = .ok rc := (pop_push hplain.1).mpr hplain.2
      have hreads : Reads net s (rc.push s.name) := by
        refine ⟨?_, hnet, hs, push_some hkeyst s.name⟩
        rw [push_items]
        exact hrows
      have hsub := hreads.loadSubnet
      cases hloaded : Subnets.loadSubnet (rc.push s.name) s.name with
      | error e =>
        rw [hloaded] at hsub
        cases hsub
      | ok sub =>
        rw [hloaded] at hsub
        refine ⟨s :: specs, sub :: subs, ?_, List.forall_mem_cons.mpr ⟨hs, hmem⟩, ?_, ?_⟩
        · rw [List.filterMap_cons_some hname, hnames, List.map_cons]
        · simp only [Subnets.loadKeys, hname, hloaded, hpop, hload, Subnets.liftKey, bind,
            Except.bind, pure, Except.pure]
        · rw [List.map_cons, List.map_cons, hserved, Except.ok.inj hsub]

theorem globals_seek {key x : String} (hrows : rc.items.rows.Perm net.settings)
    (hkey : key ∈ globalKeys) (hmem : (key, x) ∈ net.globals) : rc.getstring key = .ok x :=
  getstring_seek ((seek_global hrows hkey).mpr hmem)

theorem getint_seek {key : String} {n : U32} (hrows : rc.items.rows.Perm net.settings)
    (hkey : key ∈ globalKeys) (hmem : (key, String.ofList (decimal n.toInt)) ∈ net.globals) :
    rc.getint key = .ok n.toInt := by
  rw [getint, globals_seek hrows hkey hmem]
  exact congrArg Except.ok (atoi_decimal (BitVec.le_toInt n) BitVec.toInt_lt)

/-- The settings of a network are loaded as the network, in whatever order the table is walked. -/
theorem load_settings (hnet : net.Valid) (hrows : rc.items.rows.Perm net.settings)
    (hkeyst : rc.keyst = none) : ∃ nets, Subnets.load rc = .ok nets ∧
      nets.globalnet = net.globalnet ∧ nets.subnets.Perm (net.subnets.map net.served) := by
  have hkeys : rc.keys.Perm (net.settings.map Prod.fst) := hrows.map Prod.fst
  have hnames : (rc.keys.filterMap Subnets.subnetName).Perm (net.subnets.map SubnetSpec.name) := by
    rw [← subnetNames_settings hnet]
    exact hkeys.filterMap _
  have hknown : ∀ key ∈ rc.keys, ∀ name, Subnets.subnetName key = some name →
      ∃ s ∈ net.subnets, s.name = name := by
    intro key hkey name hname
    exact List.mem_map.mp (hnames.mem_iff.mp (List.mem_filterMap.mpr ⟨key, hkey, hname⟩))
  have hpushed : (rc.push "subnet").items.rows.Perm net.settings := by
    rw [push_items]
    exact hrows
  obtain ⟨specs, subs, hspecs, hmem, hload, hserved⟩ :=
    loadKeys_served hpushed hnet (push_none hkeyst "subnet") hknown
  -- the subnets that the walk comes to are all of them, each once
  have hall : specs.Perm net.subnets := by
    rw [hspecs] at hnames
    have hunique := hnames.nodup_iff.mpr hnet.distinct
    refine (List.perm_ext_iff_of_nodup (List.Nodup.of_map _ hunique)
      (List.Nodup.of_map _ hnet.distinct)).mpr fun s => ⟨hmem s, fun hs => ?_⟩
    obtain ⟨s', hs', hsame⟩ := List.mem_map.mp
      (hnames.mem_iff.mpr (List.mem_map.mpr ⟨s, hs, rfl⟩))
    rwa [spec_unique hnet hs (hmem s' hs') hsame.symm]
  have hdomain : rc.getstring "global-domain-name" = .ok net.domain_name :=
    globals_seek hrows (by simp [globalKeys]) (by simp [NetworkSpec.globals])
  have haddr : Subnets.address rc "global-server-addr" = .ok (.ofU32 net.server_addr) :=
    address_seek ((seek_global hrows (by simp [globalKeys])).mpr (by simp [NetworkSpec.globals]))
  have hnetmask : Subnets.address rc "global-server-netmask" = .ok (.ofU32 net.server_netmask) :=
    address_seek ((seek_global hrows (by simp [globalKeys])).mpr (by simp [NetworkSpec.globals]))
  have hlease : rc.getint "global-lease-time" = .ok net.lease_time.toInt :=
    getint_seek hrows (by simp [globalKeys]) (by simp [NetworkSpec.globals])
  have hrenew : rc.getint "global-renew-time" = .ok net.renew_time.toInt :=
    getint_seek hrows (by simp [globalKeys]) (by simp [NetworkSpec.globals])
  have hpop : (rc.push "subnet").pop = .ok rc := (pop_push (by decide)).mpr (by decide)
  simp only [Subnets.load, hdomain, haddr, hnetmask, hlease, hrenew, hload, hpop, Subnets.liftKey,
    bind, Except.bind, pure, Except.pure, BitVec.ofInt_toInt, dif_neg hnet.renew_le]
  refine ⟨_, rfl, rfl, ?_⟩
  exact (List.Perm.of_eq hserved).trans (hall.map net.served)

/-- A configuration file with the settings of a network, in any order, is loaded as that network, as
long as the hash table takes its keys: every subnet is served as it was described. -/
theorem written_network_served (host : Host) {net : NetworkSpec} (hnet : net.Valid)
    {settings : List (String × String)} (hsettings : settings.Perm net.settings) {rc : HashApprc}
    (hfill : fill .new settings = .ok rc) :
    Loads host (.ofText (unlines (settings.map settingLine))) newLoader .initial
        (.ok { newLoader with rc }) ∧
      ∃ nets, Subnets.load rc.walked = .ok nets ∧ nets.globalnet = net.globalnet ∧
        nets.subnets.Perm (net.subnets.map net.served) := by
  have hunique : (settings.map Prod.fst).Nodup :=
    (hsettings.map Prod.fst).nodup_iff.mpr (settings_unique hnet)
  have hkeys (item : String × String) (hitem : item ∈ settings) :
      SettingKey item.1.toList ∧ Writable item.2 := mem_settings hnet (hsettings.mem_iff.mp hitem)
  have hassigns (item : String × String) (hitem : item ∈ settings) :
      SetsKey (settingLine item) item.1.toList item.2.toList :=
    assigns_setting (hkeys item hitem).1 (hkeys item hitem).2
  have hrows : rc.walked.items.rows.Perm net.settings :=
    (entries_fill (fun item hitem c hc => ((hkeys item hitem).1.plain c hc).1) hunique
      hfill).trans hsettings
  exact ⟨loads_settings hassigns hfill rfl rfl, load_settings hnet hrows (fill_keyst hfill)⟩

/-- The shipped example configuration, with a second subnet that has name servers of its own. -/
def exampleNetwork : NetworkSpec where
  domain_name := "hotrixit.com"
  server_addr := ipS2u "10.20.0.10"
  server_netmask := ipS2u "255.255.255.0"
  nameserver1 := ipS2u "10.20.0.10"
  nameserver2 := none
  lease_time := 180
  renew_time := 60
  subnets := [
    { name := "mysubnet1", addr := ipS2u "10.20.11.0", netmask := ipS2u "255.255.255.0",
      gateway := ipS2u "10.20.11.10", nameserver1 := none, nameserver2 := none,
      range := some (ipS2u "10.20.11.50", ipS2u "10.20.11.52") },
    { name := "b", addr := ipS2u "10.20.12.0", netmask := ipS2u "255.255.255.0",
      gateway := ipS2u "10.20.12.10", nameserver1 := some 1, nameserver2 := some 2, range := none }]

theorem exampleNetwork_valid : exampleNetwork.Valid where
  renew_le := by decide
  ranges := by
    intro s hs r hr
    simp only [exampleNetwork, List.mem_cons, List.not_mem_nil, or_false] at hs
    rcases hs with rfl | rfl
    · obtain rfl := Option.some.inj hr
      decide
    · cases hr
  names := by
    intro s hs
    simp only [exampleNetwork, List.mem_cons, List.not_mem_nil, or_false] at hs
    rcases hs with rfl | rfl
    · exact ⟨⟨by decide, by decide⟩, ⟨forall_mem_of_all (by decide), by decide⟩⟩
    · exact ⟨⟨by decide, by decide⟩, ⟨forall_mem_of_all (by decide), by decide⟩⟩
  distinct := by decide
  domain := ⟨forall_mem_of_all (by decide), by decide⟩

/-- Its lines written from the last to the first. -/
theorem written_network_served_example : ∃ rc,
    Loads bareHost (.ofText (unlines (exampleNetwork.settings.reverse.map settingLine))) newLoader
        .initial (.ok { newLoader with rc }) ∧
      ∃ nets, Subnets.load rc.walked = .ok nets ∧ nets.globalnet = exampleNetwork.globalnet ∧
        nets.subnets.Perm (exampleNetwork.subnets.map exampleNetwork.served) := by
  have htaken : (fill .new exampleNetwork.settings.reverse).isOk = true := by decide +kernel
  cases hfill : fill .new exampleNetwork.settings.reverse with
  | error e =>
    rw [hfill] at htaken
    cases htaken
  | ok rc =>
    exact ⟨rc, written_network_served bareHost exampleNetwork_valid (List.reverse_perm _) hfill⟩

end Walk

end S3Dhcpd
