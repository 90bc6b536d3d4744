import Firewall.Value.Store
import Firewall.Json.Reader

/-!
# Shipped defaults and the layering of configuration sources

A firewall configuration is assembled from up to three sources, each laid
over the one before: the defaults document, the configuration file, and a JSON
text given at run time.  Mappings merge deeply; any other value replaces what
was there.

The shipped defaults drop everything that is not explicitly allowed in the
filter table, keep established connections and the loopback interface open,
and provide helper chains that log or reject.
-/

namespace Firewall
namespace Config

/-- A list of texts. -/
def textList (xs : List String) : Value := .list (xs.map .str)

/-- The configuration shipped as defaults. -/
def shipped : Value :=
  Value.record [
    ("policy", Value.record [("filter", Value.record [
      ("INPUT", .str "DROP"), ("FORWARD", .str "DROP"), ("OUTPUT", .str "DROP")])]),
    ("helper_chains", Value.record [("filter", Value.record [
      ("CUSTOM_REJECT", textList ["-p tcp -j REJECT --reject-with tcp-reset", "-j REJECT"]),
      ("LOG_ACCEPT", textList [
        "-m hashlimit --hashlimit-upto 3/minute --hashlimit-burst 5 --hashlimit-mode " ++
          "srcip,dstip,dstport --hashlimit-name logged_accepts -j LOG --log-level info " ++
          "--log-prefix \"FIREWALL->ACCEPT: \"",
        "-j ACCEPT"]),
      ("LOG_DROP", textList [
        "-m hashlimit --hashlimit-upto 3/minute --hashlimit-burst 5 --hashlimit-mode " ++
          "srcip,dstip,dstport --hashlimit-name logged_drops -j LOG --log-level info " ++
          "--log-prefix \"FIREWALL->DROP: \"",
        "-j DROP"]),
      ("LOG_REJECT", textList [
        "-m hashlimit --hashlimit-upto 3/minute --hashlimit-burst 5 --hashlimit-mode " ++
          "srcip,dstip,dstport --hashlimit-name logged_rejects -j LOG --log-level info " ++
          "--log-prefix \"FIREWALL->REJECT: \"",
        "-j CUSTOM_REJECT"])])]),
    ("objects", Value.record [("tcp+udp", textList ["tcp", "udp"])]),
    ("default", Value.record [("filter", Value.record [
      ("INPUT", textList ["-m conntrack --ctstate RELATED,ESTABLISHED -j ACCEPT", "-i lo -j ACCEPT"]),
      ("FORWARD", textList ["-m conntrack --ctstate RELATED,ESTABLISHED -j ACCEPT"]),
      ("OUTPUT", textList ["-m conntrack --ctstate RELATED,ESTABLISHED -j ACCEPT", "-o lo -j ACCEPT"])])])]

/-- Lay the sources over each other: the loaded configuration file (if there is
one) over the loaded defaults, then the run-time JSON text (if there is one).
A loaded document that counts as false stands for an empty plain mapping.
Without either of the two, the missing configuration file is the fault.  Each
source is loaded only after the ones before it have been laid. -/
def layer (defaults : Except Fault Doc) (file : Option (Except Fault Doc)) (filePath : String)
    (runtime : Option String) : Except Fault Doc := do
  let base := (← defaults).orEmpty
  let withFile ← match file, runtime with
    | some doc, _ => Doc.merge (← doc).orEmpty base
    | none, some _ => pure base
    | none, none => throw (.noSuchFile filePath)
  match runtime with
  | some text => Doc.merge (Doc.ofValue (← Json.parse text)) withFile
  | none => pure withFile

end Config
end Firewall
