import Prapancha.Verify.AsyncDelivery
import Prapancha.Verify.AsyncShutdown
import Prapancha.Verify.Attestation
import Prapancha.Verify.Bindings
import Prapancha.Verify.CommandLine
import Prapancha.Verify.ConcurrentLoads
import Prapancha.Verify.ConcurrentSaves
import Prapancha.Verify.Confidentiality
import Prapancha.Verify.Encryption
import Prapancha.Verify.ErrorDescriptions
import Prapancha.Verify.FirstDirectory
import Prapancha.Verify.Forensics
import Prapancha.Verify.HeaderLookup
import Prapancha.Verify.HexGrammar
import Prapancha.Verify.LogLines
import Prapancha.Verify.LogThreads
import Prapancha.Verify.Pages
import Prapancha.Verify.PatchHistory
import Prapancha.Verify.Records
import Prapancha.Verify.RegisteredPasswords
import Prapancha.Verify.Registration
import Prapancha.Verify.ResponseFields
import Prapancha.Verify.SafeMethods
import Prapancha.Verify.SavePoints
import Prapancha.Verify.Shutdown
import Prapancha.Verify.Signatures
import Prapancha.Verify.StoreListing
import Prapancha.Verify.StoredPasswords
import Prapancha.Verify.StoredUsers
import Prapancha.Verify.StreamHash
import Prapancha.Verify.ThreadCount
import Prapancha.Verify.UuidLayout
import Prapancha.Verify.Vectors
