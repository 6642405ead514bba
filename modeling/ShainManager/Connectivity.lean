import ShainManager.Dart

/-!
# The network status of the attendance page

`_updateConnectionStatus` (`lib/ui/manageEmp.dart`) writes `_connectionStatus`
and `idwifi`. A `mobile` or `none` result is written at once. A `wifi` result
starts a handler that awaits the name, the BSSID and the IP address in turn and
writes at the end; several such handlers can be suspended at the same time. A
failed check passes null and writes `_connectionStatus` only.

On iOS the first two answers come after one or two further awaits for the
location authorization. They touch local variables only and fall under the same
`on PlatformException`, so an answer here is the outcome of the whole `try`.
-/

namespace ShainManager

inductive ConnectivityResult
  | wifi
  | mobile
  | none
deriving DecidableEq, Repr

def ConnectivityResult.toString : ConnectivityResult → String
  | .wifi => "ConnectivityResult.wifi"
  | .mobile => "ConnectivityResult.mobile"
  | .none => "ConnectivityResult.none"

/-- What a platform call gives: a string, which may be null, or a
`PlatformException`. -/
inductive PlatformAnswer
  | value (s : Option String)
  | platformException
deriving DecidableEq, Repr

/-- The value of the variable after `try … on PlatformException`. -/
def PlatformAnswer.orFailed (failed : String) : PlatformAnswer → Option String
  | .value s => s
  | .platformException => some failed

/-- A suspended `wifi` handler: what it awaits, and what it has been told. -/
inductive WifiHandler
  | wifiName
  | wifiBSSID (wifiName : Option String)
  | wifiIP (wifiName wifiBSSID : Option String)
deriving DecidableEq, Repr

structure Net where
  connectionStatus : String := "Unknown"
  idwifi : Option String := some ""
  handlers : List WifiHandler := []
deriving DecidableEq, Repr

/-- The synchronous part of `_updateConnectionStatus`. -/
def Net.updateConnectionStatus (n : Net) : Option ConnectivityResult → Net
  | some .wifi => { n with handlers := n.handlers ++ [.wifiName] }
  | some .mobile =>
    { n with connectionStatus := ConnectivityResult.mobile.toString
             idwifi := some ConnectivityResult.mobile.toString }
  | some .none =>
    { n with connectionStatus := ConnectivityResult.none.toString
             idwifi := some ConnectivityResult.none.toString }
  | none => { n with connectionStatus := "Failed to get connectivity." }

/-- The `_connectionStatus` that a `wifi` handler writes. -/
def wifiStatus (name bssid ip : Option String) : String :=
  ConnectivityResult.wifi.toString ++ "\n"
    ++ "Wifi Name: " ++ interpolated name ++ "\n"
    ++ "Wifi BSSID: " ++ interpolated bssid ++ "\n"
    ++ "Wifi IP: " ++ interpolated ip ++ "\n"

/-- The suspended handler `k` goes on with an answer. The last answer ends it. -/
def Net.resume (n : Net) (k : Nat) (a : PlatformAnswer) : Option Net :=
  match n.handlers[k]? with
  | none => none
  | some .wifiName =>
    some { n with handlers := n.handlers.set k (.wifiBSSID (a.orFailed "Failed to get Wifi Name")) }
  | some (.wifiBSSID name) =>
    some { n with handlers :=
      n.handlers.set k (.wifiIP name (a.orFailed "Failed to get Wifi BSSID")) }
  | some (.wifiIP name bssid) =>
    let ip := a.orFailed "Failed to get Wifi IP"
    some { connectionStatus := wifiStatus name bssid ip
           idwifi := ip
           handlers := n.handlers.eraseIdx k }

/-- `idwifi != 'ConnectivityResult.none'`: the buttons are shown. -/
def Net.gate (n : Net) : Bool := n.idwifi != some ConnectivityResult.none.toString

end ShainManager
