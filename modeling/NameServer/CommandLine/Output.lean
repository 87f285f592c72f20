import NameServer.Zone.Load

/-!
# CommandLine.Output — what commands print
-/

namespace NameServer
namespace CommandLine

/-- The lines about a load: how much was loaded, and which lines were not. -/
def loadLines (file : String) (report : Zone.LoadReport) : List String :=
  s!"{report.loaded} record(s) loaded from {file}" ::
    report.rejected.map fun rejected =>
      s!"  line {rejected.line}: {rejected.cause.message}"

/-- The lines about what is stored. -/
def statisticsLines (stats : Zone.Statistics) : List String :=
  [s!"Started at:    {stats.startedAt.text}",
    s!"Zones:         {stats.zones}",
    s!"A records:     {stats.a}",
    s!"NS records:    {stats.ns}",
    s!"CNAME records: {stats.cname}",
    s!"MX records:    {stats.mx}",
    s!"SOA records:   {stats.soa}",
    s!"TXT records:   {stats.txt}",
    s!"Total records: {stats.total}"]

/-- A member of an object, with its value as it is written. -/
def member (name value : String) : String :=
  "  \"" ++ name ++ "\": " ++ value

/-- The lines about what is stored, as an object. -/
def statisticsObject (stats : Zone.Statistics) : List String :=
  let members := [member "started_at" ("\"" ++ stats.startedAt.internetText ++ "\""),
    member "zones" (toString stats.zones), member "a_records" (toString stats.a),
    member "ns_records" (toString stats.ns), member "cname_records" (toString stats.cname),
    member "mx_records" (toString stats.mx), member "soa_records" (toString stats.soa)]
  "\x7b" :: members.map (· ++ ",") ++ [member "txt_records" (toString stats.txt), "\x7d"]

/-- The version of the program. -/
def version : String := "chiral-dns 0.1.0"

/-- How the program is used. -/
def help : List String :=
  ["Chiral DNS - authoritative DNS server backed by a zone store",
    "",
    "Usage: chiral-dns [OPTIONS] [COMMAND]",
    "",
    "Commands:",
    "  serve    Serve DNS queries over UDP (default)",
    "  load     Load a zone file into the store",
    "  dig      Send one query and dump the exchange",
    "  console  Interactive administration console",
    "  stats    Print zone store statistics",
    "  help     Print this message or the help of the given subcommand(s)",
    "",
    "Options:",
    "  -c, --config <FILE>          Configuration file path",
    "  -d, --dns-port <DNS_PORT>    DNS server port",
    "  -b, --bind <BIND>            Bind address",
    "      --database <DATABASE>    Database path",
    "      --log-level <LOG_LEVEL>  Log level (trace, debug, info, warn, error)",
    "  -h, --help                   Print help",
    "  -V, --version                Print version"]

end CommandLine
end NameServer
