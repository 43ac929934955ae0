import TableGateway.DataType

/-! The types that every database has, by name and number, and those that a database declares. A declared
type may take the name of another, but its number only stands for it if no type of the first kind has it. -/
namespace TableGateway

inductive DeclaredKind
  | enumeration
  | array (element : Nat)
  | plain
  deriving DecidableEq, Repr

structure Declaration where
  name : Text
  number : Nat
  kind : DeclaredKind
  deriving DecidableEq, Repr

namespace DataType

def others : List (String × Nat) :=
  [("char", 18), ("regproc", 24), ("tid", 27), ("xid", 28), ("cid", 29), ("pg_ddl_command", 32),
    ("xml", 142), ("pg_node_tree", 194), ("table_am_handler", 269), ("index_am_handler", 325),
    ("point", 600), ("lseg", 601), ("path", 602), ("box", 603), ("polygon", 604), ("line", 628),
    ("circle", 718), ("macaddr8", 774), ("money", 790), ("macaddr", 829), ("aclitem", 1033),
    ("timetz", 1266), ("bit", 1560), ("varbit", 1562), ("refcursor", 1790), ("regprocedure", 2202),
    ("regoper", 2203), ("regoperator", 2204), ("regclass", 2205), ("regtype", 2206), ("record", 2249),
    ("cstring", 2275), ("any", 2276), ("anyarray", 2277), ("void", 2278), ("trigger", 2279),
    ("language_handler", 2280), ("internal", 2281), ("anyelement", 2283), ("_record", 2287), ("anynonarray", 2776),
    ("txid_snapshot", 2970), ("fdw_handler", 3115), ("pg_lsn", 3220), ("tsm_handler", 3310),
    ("pg_ndistinct", 3361), ("pg_dependencies", 3402), ("anyenum", 3500), ("tsvector", 3614),
    ("tsquery", 3615), ("gtsvector", 3642), ("regconfig", 3734), ("regdictionary", 3769),
    ("anyrange", 3831), ("event_trigger", 3838), ("int4range", 3904), ("numrange", 3906),
    ("tsrange", 3908), ("tstzrange", 3910), ("daterange", 3912), ("int8range", 3926), ("jsonpath", 4072),
    ("regnamespace", 4089), ("regrole", 4096), ("regcollation", 4191), ("int4multirange", 4451),
    ("nummultirange", 4532), ("tsmultirange", 4533), ("tstzmultirange", 4534), ("datemultirange", 4535),
    ("int8multirange", 4536), ("anymultirange", 4537), ("anycompatiblemultirange", 4538),
    ("pg_brin_bloom_summary", 4600), ("pg_brin_minmax_multi_summary", 4601), ("pg_mcv_list", 5017),
    ("pg_snapshot", 5038), ("xid8", 5069), ("anycompatible", 5077), ("anycompatiblearray", 5078),
    ("anycompatiblenonarray", 5079), ("anycompatiblerange", 5080)]

def arrays : List (String × Nat) :=
  [("xml", 143), ("json", 199), ("xid8", 271), ("line", 629), ("cidr", 651), ("circle", 719),
    ("macaddr8", 775), ("money", 791), ("bool", 1000), ("bytea", 1001), ("char", 1002), ("name", 1003),
    ("int2", 1005), ("int2vector", 1006), ("int4", 1007), ("regproc", 1008), ("text", 1009),
    ("tid", 1010), ("xid", 1011), ("cid", 1012), ("oidvector", 1013), ("bpchar", 1014),
    ("varchar", 1015), ("int8", 1016), ("point", 1017), ("lseg", 1018), ("path", 1019), ("box", 1020),
    ("float4", 1021), ("float8", 1022), ("polygon", 1027), ("oid", 1028), ("aclitem", 1034),
    ("macaddr", 1040), ("inet", 1041), ("timestamp", 1115), ("date", 1182), ("time", 1183),
    ("timestamptz", 1185), ("interval", 1187), ("numeric", 1231), ("cstring", 1263), ("timetz", 1270),
    ("bit", 1561), ("varbit", 1563), ("refcursor", 2201), ("regprocedure", 2207), ("regoper", 2208),
    ("regoperator", 2209), ("regclass", 2210), ("regtype", 2211),
    ("txid_snapshot", 2949), ("uuid", 2951), ("pg_lsn", 3221), ("tsvector", 3643), ("gtsvector", 3644),
    ("tsquery", 3645), ("regconfig", 3735), ("regdictionary", 3770), ("jsonb", 3807),
    ("int4range", 3905), ("numrange", 3907), ("tsrange", 3909), ("tstzrange", 3911), ("daterange", 3913),
    ("int8range", 3927), ("jsonpath", 4073), ("regnamespace", 4090), ("regrole", 4097),
    ("regcollation", 4192), ("pg_snapshot", 5039), ("int4multirange", 6150), ("nummultirange", 6151),
    ("tsmultirange", 6152), ("tstzmultirange", 6153), ("datemultirange", 6155), ("int8multirange", 6157)]

def singles : List DataType :=
  Scalar.all.map (fun entry => .scalar entry.1) ++
    [.array "int2vector" 22 0 (.scalar .int2), .array "oidvector" 30 0 (.scalar .oid)] ++
    others.map fun (name, number) => .other name number

def builtin : List DataType :=
  singles ++ arrays.filterMap fun (element, number) =>
    (singles.find? fun t => t.name = element.toList).map fun t => .array ('_' :: element.toList) number 1 t

def arrayNumber? (s : Scalar) : Option Nat :=
  (arrays.find? fun (element, _) => element.toList = s.entry.1).map Prod.snd

def builtin? (number : Nat) : Option DataType := builtin.find? fun t => t.number = number

def numbered? (declared : List Declaration) (number : Nat) : (depth : Nat) → Option DataType
  | 0 => builtin? number
  | depth + 1 =>
    match builtin? number, declared.find? fun d => d.number = number with
    | some t, _ => some t
    | none, none => none
    | none, some ⟨name, number, .enumeration⟩ => some (.enumeration name number)
    | none, some ⟨name, number, .array element⟩ =>
      (numbered? declared element depth).map (.array name number 1)
    | none, some ⟨name, number, .plain⟩ => some (.other name number)

def named? (declared : List Declaration) (name : Text) : Option DataType :=
  match declared.find? fun d => d.name = name with
  | some d => numbered? declared d.number declared.length
  | none => builtin.find? fun t => t.name = name

end DataType
end TableGateway
