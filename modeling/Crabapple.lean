import Crabapple.Rust.Outcome
import Crabapple.Rust.Loop
import Crabapple.Rust.Read
import Crabapple.Rust.HashMap
import Crabapple.Rust.Str
import Crabapple.Rust.Copy
import Crabapple.Rust.Fs
import Crabapple.Cipher.Modes
import Crabapple.Util.HexExact
import Crabapple.Crypto.Inverse
import Crabapple.Manifest.Unlock
import Crabapple.Database.Shared
import Crabapple.Database.Query
import Crabapple.Backup.Decrypt
import Crabapple.Backup.Reopen
import Crabapple.Backup.Contained
import Crabapple.Stream.Final
import Crabapple.KeyRing.Total
import Crabapple.KeyRing.Width
import Crabapple.Models.ManifestPlist
import Crabapple.Database.Domains
import Crabapple.KeyRing.Unknown
import Crabapple.Stream.Bounded
import Crabapple.Backup.Blame
import Crabapple.Backup.Chain
import Crabapple.Backup.Truncated
import Crabapple.Backup.Anytime
import Crabapple.Backup.CleanUp
